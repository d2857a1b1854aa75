import Mathlib

/-!
# Directories

A file system is a graph of directories: an entry leads to a directory, perhaps through a link, or
to something else of one kind or another. Who asks is given by where the directories
can be searched and where new ones are granted. `makePath` makes the directories of a path that are
not there, as far as it can.
-/

namespace Directories

variable {ν κ : Type*}

inductive Node (κ : Type*)
  | directory (d : Nat)
  | other (kind : κ)
deriving DecidableEq

/-- One step along a path. -/
inductive Step (ν : Type*)
  | self
  | up
  | name (n : ν)
deriving DecidableEq

/-- The directories are numbered, and those from `size` on do not exist yet. What is searchable and
what is granted is also settled for them. -/
structure FileSystem (ν κ : Type*) where
  size : Nat
  entry : Nat → ν → Option (Node κ)
  up : Nat → Nat
  search : Nat → Bool
  grants : Nat → ν → Bool
  root : Nat
  cwd : Nat
  root_lt : root < size
  cwd_lt : cwd < size
  up_lt : ∀ d < size, up d < size
  entry_lt : ∀ d n d', entry d n = some (.directory d') → d' < size
  entry_new : ∀ d n, size ≤ d → entry d n = none

namespace FileSystem

def target (fs : FileSystem ν κ) (d : Nat) : Step ν → Option (Node κ)
  | .self => some (.directory d)
  | .up => some (.directory (fs.up d))
  | .name n => fs.entry d n

/-- What is found in a directory that can be searched. -/
def find (fs : FileSystem ν κ) (d : Nat) (step : Step ν) : Option (Node κ) :=
  if fs.search d then fs.target d step else none

def enter (fs : FileSystem ν κ) (d : Nat) (step : Step ν) : Option Nat :=
  match fs.find d step with
  | some (.directory d') => some d'
  | _ => none

def walk (fs : FileSystem ν κ) (d : Nat) : List (Step ν) → Option Nat
  | [] => some d
  | step :: path => (fs.enter d step).bind fun d' => fs.walk d' path

variable [DecidableEq ν]

/-- The file system with a new directory, which is empty. -/
def add (fs : FileSystem ν κ) (d : Nat) (n : ν) (hd : d < fs.size) : FileSystem ν κ :=
  { fs with
    size := fs.size + 1
    entry := fun d' n' => if d' = d ∧ n' = n then some (.directory fs.size) else fs.entry d' n'
    up := Function.update fs.up fs.size d
    root_lt := Nat.lt_succ_of_lt fs.root_lt
    cwd_lt := Nat.lt_succ_of_lt fs.cwd_lt
    up_lt := by
      intro d' hd'
      by_cases hnew : d' = fs.size
      · rw [hnew, Function.update_self]
        exact Nat.lt_succ_of_lt hd
      · rw [Function.update_of_ne hnew]
        exact Nat.lt_succ_of_lt (fs.up_lt d' (by omega))
    entry_lt := by
      intro d' n' d'' hentry
      split_ifs at hentry
      · cases hentry
        exact Nat.lt_succ_self _
      · exact Nat.lt_succ_of_lt (fs.entry_lt d' n' d'' hentry)
    entry_new := by
      intro d' n' hd'
      rw [if_neg (by omega)]
      exact fs.entry_new d' n' (by omega) }

/-- A directory is made where the name is free and it is granted. -/
def make (fs : FileSystem ν κ) (d : Nat) : Step ν → Option (FileSystem ν κ)
  | .name n =>
    if h : d < fs.size ∧ fs.search d ∧ fs.entry d n = none ∧ fs.grants d n then some (fs.add d n h.1)
    else none
  | .self | .up => none

/-- Goes along the path and makes the directories that are missing, up to the first step at which
there is none and none can be made. -/
def makePath (fs : FileSystem ν κ) (d : Nat) : List (Step ν) → FileSystem ν κ × Bool
  | [] => (fs, true)
  | step :: path =>
    match fs.enter d step with
    | some d' => fs.makePath d' path
    | none =>
      match fs.make d step with
      | some fs' => fs'.makePath fs.size path
      | none => (fs, false)

/-! ### What is kept -/

/-- Everything that was there is still there. -/
structure Extends (fs fs' : FileSystem ν κ) : Prop where
  size_le : fs.size ≤ fs'.size
  entry : ∀ d n, fs.entry d n ≠ none → fs'.entry d n = fs.entry d n
  up : ∀ d < fs.size, fs'.up d = fs.up d
  search : fs'.search = fs.search
  grants : fs'.grants = fs.grants
  root : fs'.root = fs.root
  cwd : fs'.cwd = fs.cwd

variable {fs fs' fs'' : FileSystem ν κ} {d d' : Nat} {step : Step ν} {path : List (Step ν)} {n : ν}

omit [DecidableEq ν] in
theorem enter_eq_some :
    fs.enter d step = some d' ↔
      fs.search d = true ∧ fs.target d step = some (.directory d') := by
  rw [enter, find]
  cases fs.search d with
  | false => simp
  | true =>
      rcases htarget : fs.target d step with _ | _ | _ <;> simp

omit [DecidableEq ν] in
theorem enter_lt (hd : d < fs.size) (h : fs.enter d step = some d') : d' < fs.size := by
  obtain ⟨-, htarget⟩ := enter_eq_some.mp h
  cases step with
  | self =>
      cases htarget
      exact hd
  | up =>
      cases htarget
      exact fs.up_lt d hd
  | name n => exact fs.entry_lt d n d' htarget

omit [DecidableEq ν] in
theorem walk_append (fs : FileSystem ν κ) (d : Nat) (p q : List (Step ν)) :
    fs.walk d (p ++ q) = (fs.walk d p).bind fun d' => fs.walk d' q := by
  induction p generalizing d with
  | nil => rfl
  | cons step p ih =>
      rw [List.cons_append, walk, walk]
      cases fs.enter d step with
      | none => rfl
      | some d' => exact ih d'

namespace Extends

omit [DecidableEq ν]

theorem refl (fs : FileSystem ν κ) : fs.Extends fs :=
  ⟨le_rfl, fun _ _ _ => rfl, fun _ _ => rfl, rfl, rfl, rfl, rfl⟩

theorem trans (h : fs.Extends fs') (h' : fs'.Extends fs'') : fs.Extends fs'' where
  size_le := h.size_le.trans h'.size_le
  entry d n hn := by
    rw [h'.entry d n (h.entry d n hn ▸ hn), h.entry d n hn]
  up d hd := by
    rw [h'.up d (hd.trans_le h.size_le), h.up d hd]
  search := h'.search.trans h.search
  grants := h'.grants.trans h.grants
  root := h'.root.trans h.root
  cwd := h'.cwd.trans h.cwd

theorem enter (h : fs.Extends fs') (hd : d < fs.size) (henter : fs.enter d step = some d') :
    fs'.enter d step = some d' := by
  obtain ⟨hsearch, htarget⟩ := enter_eq_some.mp henter
  refine enter_eq_some.mpr ⟨h.search ▸ hsearch, ?_⟩
  cases step with
  | self => exact htarget
  | up =>
      rw [target, h.up d hd]
      exact htarget
  | name n =>
      have hentry : fs.entry d n = some (.directory d') := htarget
      rw [target, h.entry d n (by simp [hentry]), hentry]

theorem walk (h : fs.Extends fs') (hd : d < fs.size) (hwalk : fs.walk d path = some d') :
    fs'.walk d path = some d' := by
  induction path generalizing d with
  | nil => exact hwalk
  | cons step path ih =>
      obtain ⟨d'', henter, hrest⟩ := Option.bind_eq_some_iff.mp hwalk
      rw [FileSystem.walk, h.enter hd henter]
      exact ih (enter_lt hd henter) hrest

end Extends

theorem extends_add (hd : d < fs.size) (hentry : fs.entry d n = none) :
    fs.Extends (fs.add d n hd) where
  size_le := Nat.le_succ _
  entry d' n' hn := by
    have hnot : ¬ (d' = d ∧ n' = n) := by
      rintro ⟨rfl, rfl⟩
      exact hn hentry
    simp [add, hnot]
  up d' hd' := Function.update_of_ne hd'.ne _ _
  search := rfl
  grants := rfl
  root := rfl
  cwd := rfl

theorem make_eq_some (h : fs.make d step = some fs') :
    ∃ n, ∃ hd : d < fs.size, step = .name n ∧ fs.search d = true ∧ fs.entry d n = none ∧
      fs' = fs.add d n hd := by
  cases step with
  | self | up => cases h
  | name n =>
      rw [make] at h
      split_ifs at h with hmake
      cases h
      exact ⟨n, hmake.1, rfl, hmake.2.1, hmake.2.2.1, rfl⟩

theorem extends_of_make (h : fs.make d step = some fs') : fs.Extends fs' := by
  obtain ⟨n, hd, -, -, hentry, rfl⟩ := make_eq_some h
  exact extends_add hd hentry

/-- The new directory is the one that was numbered last. -/
theorem enter_of_make (h : fs.make d step = some fs') : fs'.enter d step = some fs.size := by
  obtain ⟨n, hd, rfl, hsearch, -, rfl⟩ := make_eq_some h
  simp [enter_eq_some, target, add, hsearch]

theorem size_of_make (h : fs.make d step = some fs') : fs.size < fs'.size := by
  obtain ⟨n, hd, -, -, -, rfl⟩ := make_eq_some h
  exact Nat.lt_succ_self _

/-- Where there is something else than a directory, none can be made. -/
theorem make_of_other {kind : κ} (h : fs.find d step = some (.other kind)) :
    fs.enter d step = none ∧ fs.make d step = none := by
  refine ⟨by rw [enter, h], ?_⟩
  cases hmake : fs.make d step with
  | none => rfl
  | some fs' =>
      obtain ⟨n, -, rfl, hsearch, hentry, -⟩ := make_eq_some hmake
      simp [find, target, hsearch, hentry] at h

/-- There is no entry in the new directory. -/
theorem entry_of_make (h : fs.make d step = some fs') (n : ν) : fs'.entry fs.size n = none := by
  obtain ⟨m, hd, -, -, -, rfl⟩ := make_eq_some h
  have hnot : ¬ (fs.size = d ∧ n = m) := fun heq => hd.ne heq.1.symm
  exact (if_neg hnot).trans (fs.entry_new _ n le_rfl)

/-! ### What is made -/

/-- Everything along the path is a directory, and nothing else has changed than that directories
that were missing there have been added. -/
structure Built (fs fs' : FileSystem ν κ) (d : Nat) (path : List (Step ν)) : Prop
    extends Extends fs fs' where
  directories : ∀ p, p <+: path → ∃ d', fs'.walk d p = some d'
  added : ∀ d' n, fs'.entry d' n ≠ fs.entry d' n →
    ∃ p, p ++ [.name n] <+: path ∧ fs'.walk d p = some d' ∧ fs.walk d (p ++ [.name n]) = none

namespace Built

omit [DecidableEq ν]

theorem nil (fs : FileSystem ν κ) (d : Nat) : fs.Built fs d [] where
  toExtends := .refl fs
  directories p hp := ⟨d, by rw [List.prefix_nil.mp hp]; rfl⟩
  added _ _ h := absurd rfl h

theorem directories_cons (h : ∀ p, p <+: path → ∃ d'', fs'.walk d' p = some d'')
    (henter : fs'.enter d step = some d') (p : List (Step ν)) (hp : p <+: step :: path) :
    ∃ d'', fs'.walk d p = some d'' := by
  cases p with
  | nil => exact ⟨d, rfl⟩
  | cons step' p =>
      obtain ⟨rfl, hrest⟩ := List.cons_prefix_cons.mp hp
      rw [walk, henter]
      exact h p hrest

/-- The first step leads to a directory that is there. -/
theorem enters (hd : d < fs.size) (henter : fs.enter d step = some d')
    (h : fs.Built fs' d' path) : fs.Built fs' d (step :: path) where
  toExtends := h.toExtends
  directories := directories_cons h.directories (h.enter hd henter)
  added d'' n hne := by
    obtain ⟨p, hp, hwalk, hmissing⟩ := h.added d'' n hne
    refine ⟨step :: p, List.cons_prefix_cons.mpr ⟨rfl, hp⟩, ?_, ?_⟩
    · rwa [walk, h.enter hd henter]
    · rwa [List.cons_append, walk, henter]

end Built

theorem Built.makes {fs₁ : FileSystem ν κ} (henter : fs.enter d step = none)
    (hmake : fs.make d step = some fs₁) (h : fs₁.Built fs' fs.size path) :
    fs.Built fs' d (step :: path) where
  toExtends := (extends_of_make hmake).trans h.toExtends
  directories := by
    obtain ⟨n, hd, -, -, -, rfl⟩ := make_eq_some hmake
    exact directories_cons h.directories (h.enter (Nat.lt_succ_of_lt hd) (enter_of_make hmake))
  added d'' n' hne := by
    obtain ⟨n, hd, rfl, hsearch, hentry, rfl⟩ := make_eq_some hmake
    by_cases hfirst : d'' = d ∧ n' = n
    · obtain ⟨rfl, rfl⟩ := hfirst
      exact ⟨[], by simp, rfl, by simp [walk, henter]⟩
    · have hsame : (fs.add d n hd).entry d'' n' = fs.entry d'' n' := by simp [add, hfirst]
      obtain ⟨p, hp, hwalk, -⟩ := h.added d'' n' (hsame ▸ hne)
      refine ⟨.name n :: p, List.cons_prefix_cons.mpr ⟨rfl, hp⟩, ?_, ?_⟩
      · rwa [walk, h.enter (Nat.lt_succ_of_lt hd) (enter_of_make hmake)]
      · rw [List.cons_append, walk, henter, Option.bind_none]

/-- **What `makePath` does.** It makes the missing directories of the path, or of the part of it
above the first step that leads to no directory and at which none can be made. -/
theorem makePath_spec (hd : d < fs.size) (path : List (Step ν)) :
    ∃ above below, path = above ++ below ∧ fs.Built (fs.makePath d path).1 d above ∧
      ((fs.makePath d path).2 = true ∧ below = [] ∨
        (fs.makePath d path).2 = false ∧ ∃ step rest d', below = step :: rest ∧
          (fs.makePath d path).1.walk d above = some d' ∧
          (fs.makePath d path).1.enter d' step = none ∧
          (fs.makePath d path).1.make d' step = none) := by
  induction path generalizing fs d with
  | nil => exact ⟨[], [], rfl, .nil fs d, .inl ⟨rfl, rfl⟩⟩
  | cons step path ih =>
      rw [makePath]
      cases henter : fs.enter d step with
      | some d' =>
          obtain ⟨above, below, rfl, hbuilt, hresult⟩ := ih (enter_lt hd henter)
          refine ⟨step :: above, below, rfl, hbuilt.enters hd henter, ?_⟩
          rw [walk, hbuilt.enter hd henter]
          exact hresult
      | none =>
          cases hmake : fs.make d step with
          | none =>
              refine ⟨[], step :: path, rfl, .nil fs d, .inr ?_⟩
              exact ⟨rfl, step, path, d, rfl, rfl, henter, hmake⟩
          | some fs₁ =>
              obtain ⟨above, below, rfl, hbuilt, hresult⟩ := ih (size_of_make hmake)
              have hmade := hbuilt.enter (hd.trans (size_of_make hmake)) (enter_of_make hmake)
              refine ⟨step :: above, below, rfl, hbuilt.makes henter hmake, ?_⟩
              rw [walk, hmade]
              exact hresult

omit [DecidableEq ν] in
theorem makePath_of_walk [DecidableEq ν] (h : fs.walk d path = some d') :
    fs.makePath d path = (fs, true) := by
  induction path generalizing d with
  | nil => rfl
  | cons step path ih =>
      obtain ⟨d'', henter, hrest⟩ := Option.bind_eq_some_iff.mp h
      rw [makePath, henter]
      exact ih hrest

end FileSystem

end Directories
