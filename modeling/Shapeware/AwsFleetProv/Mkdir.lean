import Shapeware.Cxx
import Shapeware.Library.Directories

/-!
# `Mkdir`

The store of the official certificates is made with all the directories above it. `Mkdir::mkdir`
splits the path at its slashes, puts it together again level by level, and asks the system for each
level whether it is a directory and, if it is not, to make it. The system sees a path name up to its
first zero byte. A socket and a block device are taken for directories, because the bit that is tested
is also one of theirs.
-/

namespace Shapeware.AwsFleetProv.Mkdir

open Directories

/-- What is there besides directories; a link is one that leads nowhere. -/
inductive FileType
  | link
  | regular
  | fifo
  | characterDevice
  | blockDevice
  | socket
deriving DecidableEq

abbrev Node := Directories.Node FileType

abbrev FileSystem := Directories.FileSystem StdString FileType

def slash : UInt8 := '/'.toUInt8

theorem slash_ne_zero : slash ≠ 0 := by decide

/-! ### The system calls -/

def pathStep (name : StdString) : Step StdString :=
  if name = bytes "." then .self else if name = bytes ".." then .up else .name name

/-- The steps of a path name; slashes that follow each other count as one. -/
def pathSteps (path : StdString) : List (Step StdString) :=
  ((path.splitOn slash).filter (· ≠ [])).map pathStep

def start (fs : FileSystem) (path : StdString) : Nat :=
  if path.head? = some slash then fs.root else fs.cwd

/-- A slash at the end of a path name asks for a directory, and a link is followed. -/
def answersTo (path : StdString) : Node → Bool
  | .directory _ => true
  | .other kind => kind ≠ .link ∧ path.getLast? ≠ some slash

/-- `stat`: nothing is found under the empty path name. -/
def stat (fs : FileSystem) (path : StdString) : Option Node :=
  if path = [] then none
  else
    match (pathSteps path).getLast? with
    | none => some (.directory (start fs path))
    | some step =>
      ((fs.walk (start fs path) (pathSteps path).dropLast).bind (fs.find · step)).filter
        (answersTo path)

/-- `S_IFDIR` -/
def sIfdir : Nat := 0o040000

/-- The file type in `st_mode`; the other bits lie below it. -/
def stMode : Node → Nat
  | .directory _ => sIfdir
  | .other .link => 0o120000
  | .other .regular => 0o100000
  | .other .fifo => 0o010000
  | .other .characterDevice => 0o020000
  | .other .blockDevice => 0o060000
  | .other .socket => 0o140000

/-- `mkdir` of the system. -/
def systemMkdir (fs : FileSystem) (path : StdString) : FileSystem × Int :=
  match (pathSteps path).getLast? with
  | none => (fs, -1)
  | some step =>
    match (fs.walk (start fs path) (pathSteps path).dropLast).bind (fs.make · step) with
    | some fs' => (fs', 0)
    | none => (fs, -1)

/-! ### The class -/

def folderExists (fs : FileSystem) (path : StdString) : Bool :=
  match stat fs (cStr path) with
  | none => false
  | some info => stMode info &&& sIfdir ≠ 0

def myMkdir (fs : FileSystem) (path : StdString) : FileSystem × Int :=
  systemMkdir fs (cStr path)

/-- `std::getline`: what is read, and what is left in the stream. -/
def getline (ss : StdString) (delim : UInt8) : Option (StdString × StdString) :=
  match ss with
  | [] => none
  | _ => some (ss.takeWhile (· ≠ delim), (ss.dropWhile (· ≠ delim)).drop 1)

theorem length_getline {ss level rest : StdString} {delim : UInt8}
    (h : getline ss delim = some (level, rest)) : rest.length < ss.length := by
  unfold getline at h
  split at h
  case h_1 => cases h
  case h_2 hne =>
    cases h
    have hpos := List.length_pos_iff.mpr hne
    have hle := (List.dropWhile_suffix (l := ss) (· ≠ delim)).length_le
    rw [List.length_drop]
    omega

/-- The loop of `mkdir`. -/
def mkdirLoop (fs : FileSystem) (ss currentLevel : StdString) : FileSystem × Int :=
  match _hline : getline ss slash with
  | none => (fs, 0)
  | some (level, rest) =>
    if level = [] then mkdirLoop fs rest currentLevel
    else
      let currentLevel := currentLevel ++ level
      if folderExists fs currentLevel then mkdirLoop fs rest (currentLevel ++ [slash])
      else
        let (fs', retval) := myMkdir fs currentLevel
        if retval ≠ 0 then (fs', -1) else mkdirLoop fs' rest (currentLevel ++ [slash])
termination_by ss.length
decreasing_by all_goals exact length_getline _hline

def mkdir (fs : FileSystem) (path : StdString) : FileSystem × Int :=
  mkdirLoop fs path (if path.head? = some slash then [slash] else [])

/-! ### Path names -/

variable {fs : FileSystem} {s ss cur level rest path : StdString} {d : Nat}
  {step : Step StdString} {before : List (Step StdString)}

theorem getline_slash (h : getline ss slash = some (level, rest)) :
    slash ∉ level ∧ (ss = level ∧ rest = [] ∨ ss = level ++ slash :: rest) := by
  unfold getline at h
  split at h
  case h_1 => cases h
  case h_2 =>
    cases h
    refine ⟨fun hmem => ?_, ?_⟩
    · simpa using List.mem_takeWhile_imp hmem
    · have hsplit := List.takeWhile_append_dropWhile (p := (· ≠ slash)) (l := ss)
      cases hdrop : ss.dropWhile (· ≠ slash) with
      | nil =>
          left
          rw [hdrop, List.append_nil] at hsplit
          exact ⟨hsplit.symm, rfl⟩
      | cons c rest =>
          right
          have hc : c = slash := by
            have hhead := List.head?_dropWhile_not (· ≠ slash) ss
            rw [hdrop] at hhead
            simpa using hhead
          rw [hdrop, hc] at hsplit
          exact hsplit.symm

theorem head?_cStr (h : s.head? ≠ some 0) : (cStr s).head? = s.head? := by
  cases s with
  | nil => rfl
  | cons c s =>
      have hc : c ≠ 0 := by simpa using h
      simp [cStr, hc]

@[simp] theorem pathSteps_nil : pathSteps [] = [] := rfl

theorem pathSteps_append (s t : StdString) :
    pathSteps (s ++ slash :: t) = pathSteps s ++ pathSteps t := by
  rw [pathSteps, List.splitOn_append_cons_self, List.filter_append, List.map_append]
  rfl

theorem pathSteps_of_notMem (h : slash ∉ s) (hne : s ≠ []) : pathSteps s = [pathStep s] := by
  simp [pathSteps, List.splitOn_eq_singleton h, hne]

theorem pathSteps_eq_nil_iff (s : StdString) : pathSteps s = [] ↔ ∀ c ∈ s, c = slash := by
  induction s with
  | nil => simp
  | cons c s ih =>
      by_cases hc : c = slash
      · have happend : pathSteps (slash :: s) = pathSteps s := pathSteps_append [] s
        simp [hc, happend, ih]
      · refine iff_of_false (fun hnil => ?_) fun hall => hc (hall c List.mem_cons_self)
        have hline : getline (c :: s) slash = some (c :: s.takeWhile (· ≠ slash),
            ((c :: s).dropWhile (· ≠ slash)).drop 1) := by
          simp [getline, hc]
        obtain ⟨hslash, ⟨heq, -⟩ | heq⟩ := getline_slash hline
        · rw [heq, pathSteps_of_notMem hslash (by simp)] at hnil
          cases hnil
        · rw [heq, pathSteps_append, pathSteps_of_notMem hslash (by simp)] at hnil
          cases hnil

/-- Where a level may follow. -/
def EndsLevel (cur : StdString) : Prop := cur = [] ∨ ∃ before, cur = before ++ [slash]

theorem pathSteps_cStr_append (hcur : EndsLevel cur) (s : StdString) :
    pathSteps (cStr (cur ++ s)) =
      pathSteps (cStr cur) ++ if 0 ∈ cur then [] else pathSteps (cStr s) := by
  obtain rfl | ⟨before, rfl⟩ := hcur
  · simp [cStr]
  · rw [cStr_append]
    split_ifs with hzero
    · rw [List.append_nil]
    · rw [cStr_of_notMem hzero, List.append_assoc, List.singleton_append, pathSteps_append,
        pathSteps_append, pathSteps_nil, List.append_nil]

theorem pathSteps_cStr_slash (s : StdString) :
    pathSteps (cStr (s ++ [slash])) = pathSteps (cStr s) := by
  rw [cStr_append]
  split_ifs with hzero
  · rfl
  · rw [cStr_of_notMem hzero]
    exact (pathSteps_append s []).trans (List.append_nil _)

/-- What is left of the stream has the step of the level that was read, if it is one, and those of
the rest. -/
theorem pathSteps_getline (h : getline ss slash = some (level, rest)) :
    pathSteps (cStr ss) =
      pathSteps (cStr level) ++ if 0 ∈ level then [] else pathSteps (cStr rest) := by
  obtain ⟨-, ⟨rfl, rfl⟩ | rfl⟩ := getline_slash h
  · simp [cStr]
  · rw [cStr_append]
    split_ifs with hzero
    · rw [List.append_nil]
    · have hcons : cStr (slash :: rest) = slash :: cStr rest := rfl
      rw [cStr_of_notMem hzero, hcons, pathSteps_append]

theorem start_cStr (h : s.head? ≠ some 0) : start fs (cStr s) = start fs s := by
  rw [start, start, head?_cStr h]

theorem start_lt (fs : FileSystem) (s : StdString) : start fs s < fs.size := by
  rw [start]
  split_ifs
  · exact fs.root_lt
  · exact fs.cwd_lt

theorem start_of_extends {fs' : FileSystem} (h : fs.Extends fs') (s : StdString) :
    start fs' s = start fs s := by
  rw [start, start, h.root, h.cwd]

/-! ### What the system says of a level -/

/-- What is no directory and has the bit of one. -/
def FileType.hasDirectoryBit (kind : FileType) : Bool := stMode (.other kind) &&& sIfdir ≠ 0

theorem FileType.hasDirectoryBit_iff {kind : FileType} :
    kind.hasDirectoryBit = true ↔ kind = .blockDevice ∨ kind = .socket := by
  cases kind <;> decide

/-- The step leads to something that `folder_exists` takes for a directory. -/
def Disguised (fs : FileSystem) (d : Nat) (step : Step StdString) : Prop :=
  ∃ kind, fs.find d step = some (.other kind) ∧ kind.hasDirectoryBit = true

theorem Disguised.not_made (h : Disguised fs d step) :
    fs.enter d step = none ∧ fs.make d step = none := by
  obtain ⟨kind, hfind, -⟩ := h
  exact FileSystem.make_of_other hfind

theorem stat_step (hne : path ≠ []) (hsteps : pathSteps path = before ++ [step])
    (hwalk : fs.walk (start fs path) before = some d) :
    stat fs path = (fs.find d step).filter (answersTo path) := by
  simp [stat, hne, hsteps, hwalk]

/-- Without a slash at the end the bit of a directory is enough. -/
theorem folderExists_step (hne : cStr path ≠ []) (hsteps : pathSteps (cStr path) = before ++ [step])
    (hwalk : fs.walk (start fs (cStr path)) before = some d) :
    folderExists fs path = true ↔ (fs.enter d step).isSome ∨
      Disguised fs d step ∧ (cStr path).getLast? ≠ some slash := by
  rw [folderExists, stat_step hne hsteps hwalk, FileSystem.enter, Disguised]
  rcases hfind : fs.find d step with _ | _ | kind
  · simp
  · simp [Option.filter_some, answersTo, stMode, sIfdir]
  · by_cases hslash : (cStr path).getLast? = some slash
    · simp [Option.filter_some, answersTo, hslash]
    · cases kind <;>
        simp [Option.filter_some, answersTo, hslash, FileType.hasDirectoryBit_iff, stMode, sIfdir]

theorem folderExists_of_walk (hne : cStr path ≠ [])
    (hwalk : fs.walk (start fs (cStr path)) (pathSteps (cStr path)) = some d) :
    folderExists fs path = true := by
  obtain hnil | ⟨before, step, hsteps⟩ := List.eq_nil_or_concat (pathSteps (cStr path))
  · simp [folderExists, stat, hne, hnil, stMode, sIfdir]
  · rw [List.concat_eq_append] at hsteps
    rw [hsteps, FileSystem.walk_append] at hwalk
    obtain ⟨d', hbefore, hlast⟩ := Option.bind_eq_some_iff.mp hwalk
    obtain ⟨d'', henter, -⟩ := Option.bind_eq_some_iff.mp hlast
    exact (folderExists_step hne hsteps hbefore).mpr (.inl (by simp [henter]))

theorem myMkdir_step (hsteps : pathSteps (cStr path) = before ++ [step])
    (hwalk : fs.walk (start fs (cStr path)) before = some d) :
    myMkdir fs path = (fs.make d step).elim (fs, -1) (·, 0) := by
  rw [myMkdir, systemMkdir]
  cases hmake : fs.make d step <;> simp [hsteps, hwalk, hmake]

/-- Below what is no directory nothing is found and nothing is made. -/
theorem below_other {step' : Step StdString} (hsteps : pathSteps (cStr path) = before ++ [step, step'])
    (hwalk : fs.walk (start fs (cStr path)) before = some d) (hdisguised : Disguised fs d step) :
    folderExists fs path = false ∧ myMkdir fs path = (fs, -1) := by
  have hlast : (pathSteps (cStr path)).getLast? = some step' := by simp [hsteps]
  have habove : fs.walk (start fs (cStr path)) (pathSteps (cStr path)).dropLast = none := by
    have hdrop : (pathSteps (cStr path)).dropLast = before ++ [step] := by
      rw [hsteps, List.dropLast_append_of_ne_nil (by simp)]
      rfl
    rw [hdrop, FileSystem.walk_append, hwalk, Option.bind_some, FileSystem.walk,
      hdisguised.not_made.1, Option.bind_none]
  constructor
  · rw [folderExists, stat]
    split_ifs <;> simp [hlast, habove]
  · rw [myMkdir, systemMkdir]
    simp [hlast, habove]

/-! ### Without dots -/

/-- There is no `.` and no `..` among the components of the path. -/
def NoDots (path : StdString) : Prop :=
  ∀ component ∈ path.splitOn slash, component ≠ bytes "." ∧ component ≠ bytes ".."

instance (path : StdString) : Decidable (NoDots path) :=
  inferInstanceAs (Decidable (∀ component ∈ path.splitOn slash, _))

theorem NoDots.getline (h : NoDots ss) (hline : getline ss slash = some (level, rest)) :
    pathStep level = .name level ∧ NoDots rest := by
  obtain ⟨hslash, ⟨rfl, rfl⟩ | rfl⟩ := getline_slash hline
  · have hlevel := h ss (by simp [List.splitOn_eq_singleton hslash])
    exact ⟨by simp [pathStep, hlevel], by decide +kernel⟩
  · rw [NoDots, List.splitOn_append_cons_self, List.splitOn_eq_singleton hslash] at h
    have hlevel := h level (by simp)
    exact ⟨by simp [pathStep, hlevel], fun component hmem => h component (by simp [hmem])⟩

/-- Only the last component can be cut off by a zero byte. -/
theorem NoDots.first_step {more : List (Step StdString)} (h : NoDots ss)
    (hsteps : pathSteps (cStr ss) = step :: more) (hmore : more ≠ []) : ∃ n, step = .name n := by
  induction hlength : ss.length using Nat.strong_induction_on generalizing ss with
  | _ n ih =>
      cases hline : AwsFleetProv.Mkdir.getline ss slash with
      | none =>
          obtain rfl : ss = [] := by
            unfold AwsFleetProv.Mkdir.getline at hline
            split at hline <;> simp_all
          simp at hsteps
      | some read =>
          obtain ⟨level, rest⟩ := read
          obtain ⟨hname, hrest⟩ := h.getline hline
          rw [pathSteps_getline hline] at hsteps
          by_cases hzero : 0 ∈ level
          · rw [if_pos hzero, List.append_nil] at hsteps
            have hslash : slash ∉ cStr level := fun hmem =>
              (getline_slash hline).1 (List.takeWhile_subset _ hmem)
            by_cases hnil : cStr level = []
            · simp [hnil] at hsteps
            · rw [pathSteps_of_notMem hslash hnil] at hsteps
              exact absurd (List.cons.inj hsteps).2.symm hmore
          · rw [if_neg hzero, cStr_of_notMem hzero] at hsteps
            by_cases hnil : level = []
            · rw [hnil, pathSteps_nil, List.nil_append] at hsteps
              exact ih _ (hlength ▸ length_getline hline) hrest hsteps rfl
            · rw [pathSteps_of_notMem (getline_slash hline).1 hnil, hname] at hsteps
              exact ⟨level, (List.cons.inj hsteps).1.symm⟩

/-! ### The loop -/

/-- The directory of the levels that were read is there. -/
structure AtLevel (fs : FileSystem) (ss cur : StdString) (d : Nat) : Prop where
  ends : EndsLevel cur
  relative : cur = [] → ss.head? ≠ some slash
  nonzero : (cur ++ ss).head? ≠ some 0
  walk : fs.walk (start fs cur) (pathSteps (cStr cur)) = some d

/-- The steps that are left; nothing counts after a zero byte. -/
def todo (ss cur : StdString) : List (Step StdString) :=
  if 0 ∈ cur then [] else pathSteps (cStr ss)

/-- The step of a level that was read; none if a zero byte is before it. -/
def levelSteps (cur level : StdString) : List (Step StdString) :=
  if 0 ∈ cur then [] else pathSteps (cStr level)

theorem levelSteps_cases (h : slash ∉ level) :
    levelSteps cur level = [] ∨ ∃ step, levelSteps cur level = [step] := by
  rw [levelSteps]
  split_ifs
  · exact .inl rfl
  · by_cases hne : cStr level = []
    · simp [hne]
    · have hnot : slash ∉ cStr level := fun hmem => h (List.takeWhile_subset _ hmem)
      exact .inr ⟨_, pathSteps_of_notMem hnot hne⟩

/-- A level that adds no step is cut off by a zero byte. -/
theorem zero_mem_of_levelSteps (hslash : slash ∉ level) (hne : level ≠ [])
    (h : levelSteps cur level = []) : 0 ∈ cur ++ level ++ [slash] := by
  rw [levelSteps] at h
  split_ifs at h with hcur
  · simp [hcur]
  · by_contra hzero
    have hlevel : 0 ∉ level := fun hmem => hzero (by simp [hmem])
    rw [cStr_of_notMem hlevel, pathSteps_of_notMem hslash hne] at h
    cases h

theorem todo_level (h : getline ss slash = some (level, rest)) :
    todo ss cur = levelSteps cur level ++ todo rest (cur ++ level ++ [slash]) := by
  have hslash : (0 : UInt8) ∉ [slash] := by simp [slash_ne_zero.symm]
  rw [todo, levelSteps, todo, pathSteps_getline h]
  by_cases hcur : 0 ∈ cur
  · simp [hcur]
  · simp [hcur, hslash]

/-- The last level that was read was taken for a directory, and is none. -/
structure Past (fs : FileSystem) (cur : StdString) (d : Nat) (step : Step StdString) : Prop where
  nonzero : cur.head? ≠ some 0
  ends : ∃ before, cur = before ++ [slash]
  steps : ∃ before, pathSteps (cStr cur) = before ++ [step] ∧ fs.walk (start fs cur) before = some d
  disguised : Disguised fs d step
  zero : 0 ∈ cur → (cStr cur).getLast? ≠ some slash

namespace AtLevel

theorem skips (h : AtLevel fs ss cur d) (hline : getline ss slash = some ([], rest)) :
    AtLevel fs rest cur d ∧ todo ss cur = todo rest cur := by
  refine ⟨?_, by simp [todo, pathSteps_getline hline]⟩
  obtain ⟨-, ⟨rfl, rfl⟩ | rfl⟩ := getline_slash hline
  · cases hline
  · -- an empty level is read after a slash only
    have hne : cur ≠ [] := fun hnil => h.relative hnil rfl
    obtain ⟨c, cur, rfl⟩ := List.exists_cons_of_ne_nil hne
    exact ⟨h.ends, fun hnil => absurd hnil hne, by simpa using h.nonzero, h.walk⟩

variable (h : AtLevel fs ss cur d) (hline : getline ss slash = some (level, rest))
  (hne : level ≠ [])

include hline hne

theorem start_level (more : StdString) : start fs (cur ++ level ++ more) = start fs cur := by
  obtain ⟨c, level, rfl⟩ := List.exists_cons_of_ne_nil hne
  have hc : c ≠ slash := fun hc => (getline_slash hline).1 (by simp [hc])
  cases cur with
  | nil => simp [start, hc]
  | cons => rfl

include h

theorem nonzero_level (more : StdString) : (cur ++ level ++ more).head? ≠ some 0 := by
  have hnonzero := h.nonzero
  obtain ⟨c, level, rfl⟩ := List.exists_cons_of_ne_nil hne
  obtain ⟨-, ⟨rfl, -⟩ | rfl⟩ := getline_slash hline <;> cases cur <;> simpa using hnonzero

theorem next {fs' : FileSystem} {d' : Nat} (hextends : fs.Extends fs')
    (hwalk : fs'.walk (start fs cur) (pathSteps (cStr (cur ++ level))) = some d') :
    AtLevel fs' rest (cur ++ level ++ [slash]) d' where
  ends := .inr ⟨_, rfl⟩
  relative := by simp
  nonzero := by
    rw [List.append_assoc]
    exact nonzero_level h hline hne _
  walk := by
    rw [start_of_extends hextends, start_level hline hne, pathSteps_cStr_slash]
    exact hwalk

/-- Reading a level either adds nothing to where the system is, or one step. -/
theorem level_cases :
    todo ss cur = [] ∧ todo rest (cur ++ level ++ [slash]) = [] ∧
        folderExists fs (cur ++ level) = true ∧ AtLevel fs rest (cur ++ level ++ [slash]) d ∨
      ∃ step, 0 ∉ cur ∧ cStr level ≠ [] ∧ todo ss cur = step :: todo rest (cur ++ level ++ [slash]) ∧
        (folderExists fs (cur ++ level) = true ↔
          (fs.enter d step).isSome ∨ Disguised fs d step) ∧
        myMkdir fs (cur ++ level) = (fs.make d step).elim (fs, -1) (·, 0) ∧
        (Disguised fs d step → Past fs (cur ++ level ++ [slash]) d step) ∧
        ∀ fs' d', fs.Extends fs' → fs'.enter d step = some d' →
          AtLevel fs' rest (cur ++ level ++ [slash]) d' := by
  have hhead : (cur ++ level).head? ≠ some 0 := by
    simpa using nonzero_level h hline hne []
  have hstart : start fs (cStr (cur ++ level)) = start fs cur := by
    rw [start_cStr hhead]
    simpa using @start_level fs ss cur level rest hline hne []
  have hfull : cStr (cur ++ level) ≠ [] := by
    intro hnil
    have hempty : cur ++ level = [] := by
      rw [← List.head?_eq_none_iff, ← head?_cStr hhead, hnil]
      rfl
    exact hne (List.append_eq_nil_iff.mp hempty).2
  have hsteps : pathSteps (cStr (cur ++ level)) = pathSteps (cStr cur) ++ levelSteps cur level :=
    pathSteps_cStr_append h.ends level
  rw [todo_level hline]
  obtain hnone | ⟨step, hstep⟩ := @levelSteps_cases cur level (getline_slash hline).1
  · have hwalk : fs.walk (start fs cur) (pathSteps (cStr (cur ++ level))) = some d := by
      rw [hsteps, hnone, List.append_nil]
      exact h.walk
    have htodo : todo rest (cur ++ level ++ [slash]) = [] := by
      rw [todo, if_pos (zero_mem_of_levelSteps (getline_slash hline).1 hne hnone)]
    refine .inl ⟨by rw [hnone, htodo, List.nil_append], htodo, ?_,
      next h hline hne (.refl fs) hwalk⟩
    exact folderExists_of_walk hfull (hstart ▸ hwalk)
  · rw [hstep] at hsteps
    obtain ⟨hcur, hlevel⟩ : 0 ∉ cur ∧ cStr level ≠ [] := by
      rw [levelSteps] at hstep
      split_ifs at hstep with hcur
      exact ⟨hcur, fun hnil => by simp [hnil] at hstep⟩
    have hlast : (cStr (cur ++ level)).getLast? ≠ some slash := by
      rw [cStr_append, if_neg hcur, List.getLast?_append_of_ne_nil _ hlevel]
      intro heq
      exact (getline_slash hline).1 (List.takeWhile_subset _ (List.mem_of_getLast? heq))
    refine .inr ⟨step, hcur, hlevel, by rw [hstep]; rfl, ?_, ?_, fun hdisguised => ?_,
      fun fs' d' hextends henter => ?_⟩
    · rw [folderExists_step hfull hsteps (hstart ▸ h.walk), and_iff_left hlast]
    · exact myMkdir_step hsteps (hstart ▸ h.walk)
    · refine ⟨nonzero_level h hline hne [slash], ⟨_, rfl⟩, ⟨pathSteps (cStr cur), ?_, ?_⟩,
        hdisguised, fun hzero => ?_⟩
      · rw [pathSteps_cStr_slash, hsteps]
      · rw [start_level hline hne]
        exact h.walk
      · have hmem : 0 ∈ cur ++ level := by simpa [slash_ne_zero.symm] using hzero
        rwa [cStr_append, if_pos hmem]
    · refine next h hline hne hextends ?_
      rw [hsteps, FileSystem.walk_append, hextends.walk (start_lt fs cur) h.walk, Option.bind_some,
        FileSystem.walk, henter]
      rfl

end AtLevel

theorem mkdirLoop_end (fs : FileSystem) (cur : StdString) : mkdirLoop fs [] cur = (fs, 0) := by
  rw [mkdirLoop]
  rfl

theorem mkdirLoop_skip (hline : getline ss slash = some ([], rest)) :
    mkdirLoop fs ss cur = mkdirLoop fs rest cur := by
  rw [mkdirLoop, hline]
  simp

theorem mkdirLoop_level (hline : getline ss slash = some (level, rest)) (hne : level ≠ []) :
    mkdirLoop fs ss cur =
      if folderExists fs (cur ++ level) then mkdirLoop fs rest (cur ++ level ++ [slash])
      else
        if (myMkdir fs (cur ++ level)).2 ≠ 0 then ((myMkdir fs (cur ++ level)).1, -1)
        else mkdirLoop (myMkdir fs (cur ++ level)).1 rest (cur ++ level ++ [slash]) := by
  rw [mkdirLoop, hline]
  simp only [hne, if_false]

/-! ### After a level that is no directory -/

namespace Past

variable (h : Past fs cur d step)

include h

/-- After a zero byte the system is asked for the same again, and else for something below. -/
theorem next_level (hslash : slash ∉ level) :
    (0 ∈ cur → folderExists fs (cur ++ level) = true ∧ Past fs (cur ++ level ++ [slash]) d step) ∧
      (0 ∉ cur → folderExists fs (cur ++ level) = false ∧
        myMkdir fs (cur ++ level) = (fs, -1)) := by
  obtain ⟨before, hsteps, hwalk⟩ := h.steps
  have hfull : cStr cur ≠ [] := fun hnil => by simp [hnil] at hsteps
  have hwalk' : fs.walk (start fs (cStr cur)) before = some d := by
    rw [start_cStr h.nonzero]
    exact hwalk
  refine ⟨fun hzero => ?_, fun hzero => ?_⟩
  · have hsame (more : StdString) : cStr (cur ++ more) = cStr cur := by
      rw [cStr_append, if_pos hzero]
    have hhead (more : StdString) : (cur ++ more).head? = cur.head? := by
      rw [List.head?_append_of_ne_nil _ (List.ne_nil_of_mem hzero)]
    refine ⟨?_, ?_, ⟨_, rfl⟩, ⟨before, ?_, ?_⟩, h.disguised, fun _ => ?_⟩
    · refine (folderExists_step (by rwa [hsame]) (by rwa [hsame]) (by rwa [hsame])).mpr (.inr ?_)
      exact ⟨h.disguised, hsame level ▸ h.zero hzero⟩
    · rw [List.append_assoc, hhead]
      exact h.nonzero
    · rwa [List.append_assoc, hsame]
    · rwa [start, List.append_assoc, hhead]
    · rw [List.append_assoc, hsame]
      exact h.zero hzero
  · obtain ⟨above, rfl⟩ := h.ends
    have hcStr : cStr (above ++ [slash] ++ level) = above ++ [slash] ++ cStr level := by
      rw [cStr_append, if_neg hzero]
    rw [cStr_of_notMem hzero] at hsteps hwalk'
    by_cases hnil : cStr level = []
    · rw [hnil, List.append_nil] at hcStr
      constructor
      · rw [← Bool.not_eq_true, folderExists_step (by rw [hcStr]; simp) (by rwa [hcStr])
          (by rwa [hcStr]), h.disguised.not_made.1, hcStr]
        simp
      · rw [myMkdir_step (by rwa [hcStr]) (by rwa [hcStr]), h.disguised.not_made.2]
        rfl
    · have hnot : slash ∉ cStr level := fun hmem => hslash (List.takeWhile_subset _ hmem)
      have hbelow : pathSteps (cStr (above ++ [slash] ++ level)) =
          before ++ [step, pathStep (cStr level)] := by
        rw [pathSteps_cStr_append (.inr ⟨_, rfl⟩), if_neg hzero, cStr_of_notMem hzero, hsteps,
          pathSteps_of_notMem hnot hnil, List.append_assoc]
        rfl
      refine below_other hbelow ?_ h.disguised
      rw [hcStr]
      have hstart : start fs (above ++ [slash] ++ cStr level) = start fs (above ++ [slash]) := by
        simp [start, List.head?_append]
      rwa [hstart]

end Past

/-- The levels that are left are passed over when there are none, or a zero byte came before. -/
theorem mkdirLoop_past (h : Past fs cur d step) :
    mkdirLoop fs ss cur = (fs, if 0 ∈ cur ∨ ∀ c ∈ ss, c = slash then 0 else -1) := by
  induction hlength : ss.length using Nat.strong_induction_on generalizing ss cur with
  | _ n ih =>
      cases hline : getline ss slash with
      | none =>
          obtain rfl : ss = [] := by
            unfold getline at hline
            split at hline <;> simp_all
          simp [mkdirLoop_end]
      | some read =>
          obtain ⟨level, rest⟩ := read
          have hlt : rest.length < n := hlength ▸ length_getline hline
          obtain ⟨hslash, hss⟩ := getline_slash hline
          by_cases hne : level = []
          · subst hne
            obtain ⟨rfl, rfl⟩ | rfl := hss
            · cases hline
            · rw [mkdirLoop_skip hline, ih _ hlt h rfl]
              simp
          · rw [mkdirLoop_level hline hne]
            obtain ⟨hzero, hnot⟩ := h.next_level hslash
            by_cases hcur : 0 ∈ cur
            · obtain ⟨hexists, hpast⟩ := hzero hcur
              rw [if_pos hexists, ih _ hlt hpast rfl]
              simp [hcur]
            · obtain ⟨hexists, hmkdir⟩ := hnot hcur
              have hleft : ¬ ∀ c ∈ ss, c = slash := by
                obtain ⟨c, level, rfl⟩ := List.exists_cons_of_ne_nil hne
                intro hall
                refine hslash (hall c ?_ ▸ List.mem_cons_self)
                obtain ⟨rfl, -⟩ | rfl := hss <;> simp
              simp [hexists, hmkdir, hcur, hleft]

def result (made : FileSystem × Bool) : FileSystem × Int := (made.1, if made.2 then 0 else -1)

/-! ### The whole path -/

/-- The first zero byte does not come right after a slash. -/
def ZeroInLevel (ss : StdString) : Prop := 0 ∈ ss → (cStr ss).getLast? ≠ some slash

/-- The last step that is left leads to something that is taken for a directory and is none. -/
def Taken (fs : FileSystem) (ss : StdString) (steps : List (Step StdString)) (d : Nat) : Prop :=
  ∃ above step d', steps = above ++ [step] ∧ fs.walk d above = some d' ∧ Disguised fs d' step ∧
    ZeroInLevel ss

theorem zeroInLevel_append (hzero : 0 ∉ level) (hne : pathSteps (cStr rest) ≠ []) :
    ZeroInLevel (level ++ slash :: rest) ↔ ZeroInLevel rest := by
  have hcStr : cStr (level ++ slash :: rest) = level ++ slash :: cStr rest := by
    rw [cStr_append, if_neg hzero]
    rfl
  have hnil : cStr rest ≠ [] := fun hnil => hne (by rw [hnil, pathSteps_nil])
  obtain ⟨c, tail, heq⟩ := List.exists_cons_of_ne_nil hnil
  simp [ZeroInLevel, hcStr, heq, hzero, slash_ne_zero.symm]

theorem pathSteps_of_todo (h : todo ss cur ≠ []) : 0 ∉ cur ∧ pathSteps (cStr ss) ≠ [] := by
  rw [todo] at h
  split_ifs at h with hzero
  · exact absurd rfl h
  · exact ⟨hzero, h⟩

theorem zeroInLevel_getline (hline : getline ss slash = some (level, rest))
    (hleft : todo rest (cur ++ level ++ [slash]) ≠ []) : ZeroInLevel ss ↔ ZeroInLevel rest := by
  obtain ⟨hzero, hsteps⟩ := pathSteps_of_todo hleft
  obtain ⟨-, ⟨-, rfl⟩ | rfl⟩ := getline_slash hline
  · simp at hsteps
  · exact zeroInLevel_append (fun hmem => hzero (by simp [hmem])) hsteps

theorem not_taken_nil (fs : FileSystem) (ss : StdString) (d : Nat) : ¬ Taken fs ss [] d := by
  rintro ⟨above, step, -, hnil, -⟩
  simp at hnil

/-- The steps after one that leads to a directory. -/
theorem taken_enter {d' : Nat} {more : List (Step StdString)} (henter : fs.enter d step = some d')
    (hzero : more ≠ [] → (ZeroInLevel ss ↔ ZeroInLevel rest)) :
    Taken fs ss (step :: more) d ↔ Taken fs rest more d' := by
  constructor
  · rintro ⟨above, last, d'', hsteps, hwalk, hdisguised, hss⟩
    cases above with
    | nil =>
        cases hwalk
        obtain ⟨rfl, -⟩ := List.cons.inj hsteps
        simp [hdisguised.not_made.1] at henter
    | cons first above =>
        obtain ⟨rfl, rfl⟩ := List.cons.inj hsteps
        rw [FileSystem.walk, henter] at hwalk
        exact ⟨above, last, d'', rfl, hwalk, hdisguised, (hzero (by simp)).mp hss⟩
  · rintro ⟨above, last, d'', rfl, hwalk, hdisguised, hrest⟩
    refine ⟨step :: above, last, d'', rfl, ?_, hdisguised, (hzero (by simp)).mpr hrest⟩
    rwa [FileSystem.walk, henter]

/-- Where the step leads to no directory, it is the last one. -/
theorem taken_other {more : List (Step StdString)} (henter : fs.enter d step = none) :
    Taken fs ss (step :: more) d ↔ Disguised fs d step ∧ more = [] ∧ ZeroInLevel ss := by
  constructor
  · rintro ⟨above, last, d'', hsteps, hwalk, hdisguised, hss⟩
    cases above with
    | nil =>
        cases hwalk
        obtain ⟨rfl, rfl⟩ := List.cons.inj hsteps
        exact ⟨hdisguised, rfl, hss⟩
    | cons first above =>
        obtain ⟨rfl, -⟩ := List.cons.inj hsteps
        simp [FileSystem.walk, henter] at hwalk
  · rintro ⟨hdisguised, rfl, hss⟩
    exact ⟨[], step, d, rfl, rfl, hdisguised, hss⟩

/-- In a directory that was just made there is nothing. -/
theorem not_taken_new {fs' : FileSystem} (hmake : fs.make d step = some fs') (hdots : NoDots ss) :
    ¬ Taken fs' ss (todo ss cur) fs.size := by
  rintro ⟨above, last, d', hsteps, hwalk, ⟨kind, hfind, -⟩, -⟩
  have hcur : todo ss cur = pathSteps (cStr ss) := by
    rw [todo]
    split_ifs with hzero
    · simp [todo, hzero] at hsteps
    · rfl
  cases above with
  | nil =>
      cases hwalk
      cases last with
      | self | up => simp [FileSystem.find, FileSystem.target] at hfind
      | name n => simp [FileSystem.find, FileSystem.target, FileSystem.entry_of_make hmake] at hfind
  | cons first above =>
      obtain ⟨n, rfl⟩ := hdots.first_step (hcur.symm.trans hsteps) (by simp)
      simp [FileSystem.walk, FileSystem.enter, FileSystem.find, FileSystem.target,
        FileSystem.entry_of_make hmake] at hwalk

/-- A level that is no directory is the last one exactly if nothing but slashes is left, or it holds a
zero byte. -/
theorem taken_iff_passed (hline : getline ss slash = some (level, rest)) (hcur : 0 ∉ cur)
    (hlevel : cStr level ≠ []) :
    todo rest (cur ++ level ++ [slash]) = [] ∧ ZeroInLevel ss ↔
      0 ∈ cur ++ level ++ [slash] ∨ ∀ c ∈ rest, c = slash := by
  obtain ⟨hslash, hss⟩ := getline_slash hline
  by_cases hzero : 0 ∈ level
  · refine iff_of_true ⟨by simp [todo, hzero], fun _ hlast => hslash ?_⟩ (.inl (by simp [hzero]))
    have hcStr : cStr ss = cStr level := by
      obtain ⟨rfl, -⟩ | rfl := hss
      · rfl
      · rw [cStr_append, if_pos hzero]
    exact List.takeWhile_subset _ (List.mem_of_getLast? (hcStr ▸ hlast))
  · have hnot : 0 ∉ cur ++ level ++ [slash] := by simp [hcur, hzero, slash_ne_zero.symm]
    rw [todo, if_neg hnot, or_iff_right hnot]
    obtain ⟨rfl, rfl⟩ | rfl := hss
    · simp [ZeroInLevel, hzero]
    · rw [pathSteps_eq_nil_iff]
      constructor
      · rintro ⟨hall, hss⟩
        by_cases hrest : 0 ∈ rest
        · refine absurd ?_ (hss (by simp [hrest]))
          have hcStr : cStr (level ++ slash :: rest) = level ++ slash :: cStr rest := by
            rw [cStr_append, if_neg hzero]
            rfl
          rw [hcStr, List.getLast?_append_of_ne_nil _ (by simp),
            List.getLast?_eq_some_getLast (by simp), Option.some_inj]
          obtain heq | hmem := List.mem_cons.mp (List.getLast_mem (List.cons_ne_nil slash (cStr rest)))
          · exact heq
          · exact hall _ hmem
        · rwa [cStr_of_notMem hrest] at hall
      · intro hall
        have hrest : 0 ∉ rest := fun hmem => slash_ne_zero (hall 0 hmem).symm
        refine ⟨by rwa [cStr_of_notMem hrest], fun hmem => absurd hmem ?_⟩
        simp [hzero, hrest, slash_ne_zero.symm]

theorem taken_congr {steps : List (Step StdString)}
    (hzero : steps ≠ [] → (ZeroInLevel ss ↔ ZeroInLevel rest)) :
    Taken fs ss steps d ↔ Taken fs rest steps d := by
  refine exists_congr fun above => exists_congr fun last => exists_congr fun d' =>
    and_congr_right fun hsteps => ?_
  rw [hzero (by simp [hsteps])]

/-- The loop makes the directories of the path name, as `makePath` does, but for a last level that it
takes for a directory. -/
theorem mkdirLoop_eq (h : AtLevel fs ss cur d) (hdots : NoDots ss) :
    Taken fs ss (todo ss cur) d ∧ mkdirLoop fs ss cur = (fs, 0) ∨
      ¬ Taken fs ss (todo ss cur) d ∧ mkdirLoop fs ss cur = result (fs.makePath d (todo ss cur)) := by
  induction hlength : ss.length using Nat.strong_induction_on generalizing fs ss cur d with
  | _ n ih =>
      cases hline : getline ss slash with
      | none =>
          obtain rfl : ss = [] := by
            unfold getline at hline
            split at hline <;> simp_all
          refine .inr ⟨?_, ?_⟩
          · simpa [todo] using not_taken_nil fs [] d
          · rw [mkdirLoop_end]
            simp [todo, result, FileSystem.makePath]
      | some read =>
          obtain ⟨level, rest⟩ := read
          have hlt : rest.length < n := hlength ▸ length_getline hline
          obtain ⟨-, hrest⟩ := hdots.getline hline
          by_cases hne : level = []
          · subst hne
            obtain ⟨hnext, htodo⟩ := h.skips hline
            obtain ⟨-, ⟨rfl, rfl⟩ | rfl⟩ := getline_slash hline
            · cases hline
            rw [mkdirLoop_skip hline, htodo, taken_congr fun hleft => ?_]
            · exact ih _ hlt hnext hrest rfl
            · exact zeroInLevel_append List.not_mem_nil (pathSteps_of_todo hleft).2
          rw [mkdirLoop_level hline hne]
          obtain ⟨htodo, htodo', hexists, hnext⟩ |
              ⟨step, hcur, hlevel, htodo, hexists, hmkdir, hpast, hnext⟩ :=
            h.level_cases hline hne
          · rw [if_pos hexists, htodo]
            have hloop := ih _ hlt hnext hrest rfl
            rw [htodo'] at hloop
            exact .inr ⟨not_taken_nil fs ss d, (hloop.resolve_left
              fun htaken => not_taken_nil fs rest d htaken.1).2⟩
          rw [htodo]
          cases henter : fs.enter d step with
          | some d' =>
              rw [if_pos (hexists.mpr (.inl (by simp [henter]))), FileSystem.makePath, henter,
                taken_enter henter (zeroInLevel_getline hline)]
              exact ih _ hlt (hnext fs d' (.refl fs) henter) hrest rfl
          | none =>
              rw [taken_other henter]
              by_cases hdisguised : Disguised fs d step
              · rw [if_pos (hexists.mpr (.inr hdisguised)), mkdirLoop_past (hpast hdisguised),
                  and_iff_right hdisguised, taken_iff_passed hline hcur hlevel, FileSystem.makePath,
                  henter, hdisguised.not_made.2]
                by_cases hleft : 0 ∈ cur ++ level ++ [slash] ∨ ∀ c ∈ rest, c = slash
                · exact .inl ⟨hleft, by rw [if_pos hleft]⟩
                · exact .inr ⟨hleft, by rw [if_neg hleft]; rfl⟩
              · have hnot : ¬ folderExists fs (cur ++ level) = true := by
                  simp [hexists, henter, hdisguised]
                rw [if_neg hnot, hmkdir, FileSystem.makePath, henter]
                refine .inr ⟨fun htaken => hdisguised htaken.1, ?_⟩
                cases hmake : fs.make d step with
                | none => rfl
                | some fs' =>
                    have hloop := ih _ hlt (hnext fs' fs.size (FileSystem.extends_of_make hmake)
                      (FileSystem.enter_of_make hmake)) hrest rfl
                    exact (hloop.resolve_left fun htaken => not_taken_new hmake hrest htaken.1).2

/-- The path leads through directories to a socket or a block device, which `folder_exists` takes for a
directory. -/
def TakenForDirectory (fs : FileSystem) (path : StdString) : Prop :=
  Taken fs path (pathSteps (cStr path)) (start fs (cStr path))

theorem mkdir_eq (h : path.head? ≠ some 0) (hdots : NoDots path) :
    TakenForDirectory fs path ∧ mkdir fs path = (fs, 0) ∨
      ¬ TakenForDirectory fs path ∧ mkdir fs path =
        result (fs.makePath (start fs (cStr path)) (pathSteps (cStr path))) := by
  rw [mkdir, TakenForDirectory, start_cStr h]
  by_cases habsolute : path.head? = some slash
  · have hat : AtLevel fs path [slash] (start fs path) :=
      ⟨.inr ⟨[], rfl⟩, by simp, by simp [slash_ne_zero], by simp [start, habsolute]; rfl⟩
    have htodo : todo path [slash] = pathSteps (cStr path) := by simp [todo, slash_ne_zero.symm]
    rw [if_pos habsolute, ← htodo]
    exact mkdirLoop_eq hat hdots
  · have hat : AtLevel fs path [] (start fs path) :=
      ⟨.inl rfl, fun _ => habsolute, by simpa using h, by simp [start, habsolute]; rfl⟩
    have htodo : todo path [] = pathSteps (cStr path) := by simp [todo]
    rw [if_neg habsolute, ← htodo]
    exact mkdirLoop_eq hat hdots

/-- Under a name that starts with a zero byte the system finds nothing and makes nothing. -/
theorem mkdir_of_zero (h : path.head? = some 0) : mkdir fs path = (fs, -1) := by
  obtain ⟨path, rfl⟩ := List.head?_eq_some_iff.mp h
  have hline : getline (0 :: path) slash = some (0 :: path.takeWhile (· ≠ slash),
      ((0 :: path).dropWhile (· ≠ slash)).drop 1) := by
    simp [getline, slash_ne_zero.symm]
  have hnone : cStr ([] ++ 0 :: path.takeWhile (· ≠ slash)) = [] := by simp [cStr]
  have hexists : folderExists fs ([] ++ 0 :: path.takeWhile (· ≠ slash)) = false := by
    simp only [folderExists, hnone, stat, if_true]
  have hmkdir : myMkdir fs ([] ++ 0 :: path.takeWhile (· ≠ slash)) = (fs, -1) := by
    simp only [myMkdir, hnone, systemMkdir, pathSteps_nil, List.getLast?_nil]
  rw [mkdir, if_neg (by simp [slash_ne_zero.symm]), mkdirLoop_level hline (by simp), hexists, hmkdir]
  rfl

/-- The next step leads to no directory, and none can be made there; or there is no step at all,
because the path name is cut off before it begins. -/
def Stuck (fs : FileSystem) (base : Nat) (above : List (Step StdString)) (path : StdString) :
    List (Step StdString) → Prop
  | [] => path.head? = some 0
  | step :: _ => ∃ d, fs.walk base above = some d ∧ fs.enter d step = none ∧ fs.make d step = none

/-- `mkdir` makes exactly what is missing: with 0, the whole path, and again it changes nothing; with
-1, what is above the first level that cannot be made. -/
def Builds (fs : FileSystem) (path : StdString) : Prop :=
  ∃ fs' retval, mkdir fs path = (fs', retval) ∧
    (retval = 0 ∧ fs.Built fs' (start fs (cStr path)) (pathSteps (cStr path)) ∧
        mkdir fs' path = (fs', 0) ∨
      retval = -1 ∧ ∃ above below, pathSteps (cStr path) = above ++ below ∧
        fs.Built fs' (start fs (cStr path)) above ∧
        Stuck fs' (start fs (cStr path)) above path below)

/-- What is taken for a directory is none. -/
theorem TakenForDirectory.not_walk (h : TakenForDirectory fs path) :
    fs.walk (start fs (cStr path)) (pathSteps (cStr path)) = none := by
  obtain ⟨above, step, d, hsteps, hwalk, hdisguised, -⟩ := h
  rw [hsteps, FileSystem.walk_append, hwalk, Option.bind_some, FileSystem.walk,
    hdisguised.not_made.1, Option.bind_none]

theorem builds_of_not_taken (hdots : NoDots path) (h : ¬ TakenForDirectory fs path) :
    Builds fs path := by
  by_cases hzero : path.head? = some 0
  · refine ⟨fs, -1, mkdir_of_zero hzero, .inr ⟨rfl, [], [], ?_, .nil fs _, hzero⟩⟩
    obtain ⟨rest, rfl⟩ := List.head?_eq_some_iff.mp hzero
    rfl
  obtain ⟨above, below, hsteps, hbuilt, hresult⟩ :=
    FileSystem.makePath_spec (start_lt fs (cStr path)) (pathSteps (cStr path))
  obtain ⟨-, hmkdir⟩ := (mkdir_eq hzero hdots).resolve_left fun htaken => h htaken.1
  generalize fs.makePath (start fs (cStr path)) (pathSteps (cStr path)) = made at *
  obtain ⟨fs', found⟩ := made
  obtain ⟨rfl, rfl⟩ | ⟨rfl, step, rest, d, rfl, hstuck⟩ := hresult
  · rw [List.append_nil] at hsteps
    subst hsteps
    refine ⟨fs', 0, hmkdir, .inl ⟨rfl, hbuilt, ?_⟩⟩
    obtain ⟨d, hwalk⟩ := hbuilt.directories _ (List.prefix_refl _)
    rw [← start_of_extends hbuilt.toExtends] at hwalk
    obtain ⟨htaken, -⟩ | ⟨-, hagain⟩ := @mkdir_eq fs' path hzero hdots
    · exact absurd (htaken.not_walk.symm.trans hwalk) (by simp)
    · rw [hagain, FileSystem.makePath_of_walk hwalk]
      rfl
  · exact ⟨fs', -1, hmkdir, .inr ⟨rfl, above, step :: rest, hsteps, hbuilt, d, hstuck⟩⟩

/-- `mkdir` returns 0 then, and the last prefix is no directory. -/
theorem TakenForDirectory.not_builds (htaken : TakenForDirectory fs path) (hdots : NoDots path) :
    ¬ Builds fs path := by
  rintro ⟨fs', retval, hmkdir, hresult⟩
  have hzero : path.head? ≠ some 0 := by
    intro hzero
    obtain ⟨rest, rfl⟩ := List.head?_eq_some_iff.mp hzero
    exact not_taken_nil _ _ _ htaken
  obtain ⟨-, heq⟩ := (mkdir_eq hzero hdots).resolve_right fun hnot => hnot.1 htaken
  obtain ⟨rfl, rfl⟩ := Prod.mk.inj (heq.symm.trans hmkdir)
  obtain ⟨-, hbuilt, -⟩ | ⟨hretval, -⟩ := hresult
  · obtain ⟨d, hwalk⟩ := hbuilt.directories _ (List.prefix_refl _)
    exact absurd (htaken.not_walk.symm.trans hwalk) (by simp)
  · cases hretval

/-- **`mkdir` makes exactly what is missing**, if and only if the path does not lead to something that
`folder_exists` takes for a directory. -/
theorem mkdir_builds_iff (hdots : NoDots path) : Builds fs path ↔ ¬ TakenForDirectory fs path :=
  ⟨fun hbuilds htaken => htaken.not_builds hdots hbuilds, builds_of_not_taken hdots⟩

/-- A file system with one directory, in which there is at most one entry. -/
def oneDirectory (entry : Option (StdString × FileType)) : FileSystem where
  size := 1
  entry d n := if d = 0 then (entry.filter (·.1 = n)).map fun e => .other e.2 else none
  up _ := 0
  search _ := true
  grants _ _ := true
  root := 0
  cwd := 0
  root_lt := Nat.one_pos
  cwd_lt := Nat.one_pos
  up_lt _ _ := Nat.one_pos
  entry_lt d n d' h := by
    split_ifs at h
    simp at h
  entry_new d n hd := if_neg (by omega)

theorem mkdir_builds_iff_nested : Builds (oneDirectory (some (bytes "s", .socket)))
    (bytes "/cert//official/") := by
  refine (mkdir_builds_iff (by decide +kernel)).mpr ?_
  rintro ⟨above, step, d, hsteps, hwalk, -⟩
  have hpath : pathSteps (cStr (bytes "/cert//official/")) =
      [.name (bytes "cert"), .name (bytes "official")] := by decide +kernel
  rw [hpath] at hsteps
  -- there is no `cert` to go through
  have hcert : (oneDirectory (some (bytes "s", .socket))).enter 0 (.name (bytes "cert")) = none := by
    decide +kernel
  cases above with
  | nil => cases hsteps
  | cons first above =>
      obtain ⟨rfl, -⟩ := List.cons.inj hsteps
      have hstart : start (oneDirectory (some (bytes "s", .socket)))
          (cStr (bytes "/cert//official/")) = 0 := by decide +kernel
      rw [FileSystem.walk, hstart, hcert] at hwalk
      cases hwalk

/-- A socket is taken for a directory. -/
theorem not_builds_socket : ¬ ∀ fs path, NoDots path → Builds fs path := by
  intro hall
  have htaken : TakenForDirectory (oneDirectory (some (bytes "s", .socket))) (bytes "s") := by
    have hsteps : pathSteps (cStr (bytes "s")) = [.name (bytes "s")] := by decide +kernel
    exact ⟨[], .name (bytes "s"), 0, hsteps, by decide +kernel,
      ⟨.socket, by decide +kernel, by decide⟩, by unfold ZeroInLevel; decide +kernel⟩
  have hdots : NoDots (bytes "s") := by decide +kernel
  exact htaken.not_builds hdots (hall _ _ hdots)

end Shapeware.AwsFleetProv.Mkdir
