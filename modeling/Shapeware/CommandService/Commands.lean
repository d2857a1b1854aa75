import Shapeware.Cxx
import Shapeware.Library.Runs

/-!
# The commands of the command service

A component adds its command under a name when it is activated and removes the name when it is
deactivated. `addCommand` keeps a command that is there already, and tells so in a trace only; the
component whose command was refused still removes the name, whoever registered it.
-/

namespace Shapeware.CommandService

/-! ### The service -/

/-- The warnings that are traced, with the value printed in their texts. -/
inductive Warning
  | alreadyRegistered (cmdStr : StdString)
  | notRegistered (cmdStr : StdString)
deriving DecidableEq

structure Imp (C : Type) where
  commands : StdMap StdString C := ∅
  defaultCmd : Option C := none

namespace Imp

variable {C : Type}

def addCommand (s : Imp C) (cmdStr : StdString) (cmd : C) : Imp C × Option Warning :=
  let ret := s.commands.containsThenInsertIfNew cmdStr cmd
  ({ s with commands := ret.2 }, if ret.1 then some (.alreadyRegistered cmdStr) else none)

def removeCommand (s : Imp C) (cmdStr : StdString) : Imp C × Option Warning :=
  ({ s with commands := s.commands.erase cmdStr },
    if cmdStr ∈ s.commands then none else some (.notRegistered cmdStr))

def findCommand (s : Imp C) (cmdStr : StdString) : Option C := s.commands[cmdStr]?

def getDefaultCommand (s : Imp C) : Option C := s.defaultCmd

/-- The service registers its own commands, the first of them also for unknown names. -/
def activate (s : Imp C) (help quit : C) : Imp C :=
  let s := { s with defaultCmd := some help }
  let s := (s.addCommand (bytes "h") help).1
  (s.addCommand (bytes "q") quit).1

theorem findCommand_addCommand (s : Imp C) (cmdStr k : StdString) (cmd : C) :
    (s.addCommand cmdStr cmd).1.findCommand k =
      if k = cmdStr ∧ s.findCommand cmdStr = none then some cmd else s.findCommand k := by
  simp only [addCommand, findCommand, Std.ExtTreeMap.containsThenInsertIfNew_snd,
    Std.ExtTreeMap.getElem?_insertIfNew]
  refine if_congr (and_congr ?_ ?_) rfl rfl
  · exact Std.LawfulEqOrd.compare_eq_iff_eq.trans eq_comm
  · simp

theorem addCommand_refused (s : Imp C) (cmdStr : StdString) (cmd : C) :
    (s.addCommand cmdStr cmd).2.isSome = (s.findCommand cmdStr).isSome := by
  rw [addCommand, Std.ExtTreeMap.containsThenInsertIfNew_fst, findCommand,
    Std.ExtTreeMap.contains_eq_isSome_getElem?]
  cases s.commands[cmdStr]? <;> rfl

theorem findCommand_removeCommand (s : Imp C) (cmdStr k : StdString) :
    (s.removeCommand cmdStr).1.findCommand k =
      if k = cmdStr then none else s.findCommand k :=
  stdMap_getElem?_erase _ _ _

end Imp

/-! ### The components -/

/-- The command objects; a component makes its own at each activation. -/
inductive Command (K : Type)
  | help
  | quit
  | own (k : K) (activation : Nat)
deriving DecidableEq

structure Registration (K : Type) where
  cmdStr : StdString
  cmd : Command K
deriving DecidableEq

variable {K : Type}

/-- What is found under a name is the first command that is registered under it. -/
def Found (service : Imp (Command K)) (registered : List (Registration K)) : Prop :=
  ∀ cmdStr, service.findCommand cmdStr = (registered.find? (·.cmdStr = cmdStr)).map (·.cmd)

namespace Found

variable {service : Imp (Command K)} {registered : List (Registration K)} {cmdStr : StdString}

theorem mem_of_findCommand {cmd : Command K} (h : Found service registered)
    (hfind : service.findCommand cmdStr = some cmd) :
    ∃ r ∈ registered, r.cmdStr = cmdStr ∧ r.cmd = cmd := by
  rw [h cmdStr] at hfind
  obtain ⟨r, hr, rfl⟩ := Option.map_eq_some_iff.mp hfind
  exact ⟨r, List.mem_of_find?_eq_some hr, by simpa using List.find?_some hr, rfl⟩

theorem findCommand_isSome {r : Registration K} (h : Found service registered)
    (hr : r ∈ registered) : (service.findCommand r.cmdStr).isSome = true := by
  rw [h r.cmdStr, Option.isSome_map, List.find?_isSome]
  exact ⟨r, hr, by simp⟩

theorem add (h : Found service registered) (hfree : service.findCommand cmdStr = none)
    (cmd : Command K) :
    Found (service.addCommand cmdStr cmd).1 (registered ++ [⟨cmdStr, cmd⟩]) := by
  intro k
  rw [Imp.findCommand_addCommand, List.find?_append, h k]
  by_cases hk : k = cmdStr
  · subst hk
    have hnone : registered.find? (·.cmdStr = k) = none := by
      rw [h k] at hfree
      simpa using hfree
    simp [hfree, hnone]
  · simp [hk, Ne.symm hk]

theorem refuse (h : Found service registered)
    (htaken : (service.findCommand cmdStr).isSome = true) (cmd : Command K) :
    Found (service.addCommand cmdStr cmd).1 registered := by
  intro k
  have hnone : service.findCommand cmdStr ≠ none := Option.isSome_iff_ne_none.mp htaken
  rw [Imp.findCommand_addCommand, if_neg fun hk => hnone hk.2]
  exact h k

/-- The registration is the only one of its name. -/
theorem remove [DecidableEq K] (h : Found service registered) (cmd : Command K)
    (hown : ∀ r ∈ registered, r.cmd = cmd ↔ r.cmdStr = cmdStr) :
    Found (service.removeCommand cmdStr).1 (registered.filter (·.cmd ≠ cmd)) := by
  have hfilter : registered.filter (·.cmd ≠ cmd) = registered.filter (·.cmdStr ≠ cmdStr) :=
    List.filter_congr fun r hr => by simp [hown r hr]
  intro k
  rw [Imp.findCommand_removeCommand, hfilter, List.find?_filter]
  by_cases hk : k = cmdStr
  · subst hk
    simp
  · rw [if_neg hk, h k]
    refine congrArg _ (List.find?_congr fun r _ => ?_)
    by_cases hr : r.cmdStr = k <;> simp [hr, hk]

end Found

/-- An active component: the number of its activation, and whether its command was refused. -/
structure Activation where
  number : Nat
  refused : Bool
deriving DecidableEq

/-- A call that a component has made, with the service before and after it. -/
structure Call (K : Type) where
  refused : Bool
  before : Imp (Command K)
  after : Imp (Command K)

structure System (K : Type) where
  service : Imp (Command K)
  active : K → Option Activation
  activations : Nat
  /-- The accepted registrations that were not removed by those who made them, in order. -/
  registered : List (Registration K)
  calls : List (Call K)

inductive Action (K : Type)
  | activate (k : K)
  | deactivate (k : K)

namespace System

variable [DecidableEq K]

def init : System K :=
  { service := ({} : Imp (Command K)).activate .help .quit
    active := fun _ => none
    activations := 0
    registered := [⟨bytes "h", .help⟩, ⟨bytes "q", .quit⟩]
    calls := [] }

/-- A component calls `addCommand` with its own command. -/
def activates (s : System K) (cmdStr : StdString) (k : K) : System K :=
  let cmd := .own k s.activations
  let ret := s.service.addCommand cmdStr cmd
  let refused := ret.2.isSome
  { service := ret.1
    active := Function.update s.active k (some ⟨s.activations, refused⟩)
    activations := s.activations + 1
    registered := if refused then s.registered else s.registered ++ [⟨cmdStr, cmd⟩]
    calls := s.calls ++ [⟨refused, s.service, ret.1⟩] }

/-- A component calls `removeCommand`. -/
def deactivates (s : System K) (cmdStr : StdString) (k : K) (activation : Activation) : System K :=
  let ret := s.service.removeCommand cmdStr
  { s with
    service := ret.1
    active := Function.update s.active k none
    registered := s.registered.filter (·.cmd ≠ .own k activation.number)
    calls := s.calls ++ [⟨activation.refused, s.service, ret.1⟩] }

/-- The components use the names given by `name`, several of them perhaps the same one. -/
def step (name : K → StdString) (s : System K) : Action K → Option (System K)
  | .activate k => if (s.active k).isSome then none else some (s.activates (name k) k)
  | .deactivate k => (s.active k).map (s.deactivates (name k) k)

/-- What is found under a name is the command that was accepted first, of those that their
components have not removed; a component whose command was refused changes nothing. -/
structure KeepsRegistrations (s : System K) : Prop where
  found : Found s.service s.registered
  refused : ∀ call ∈ s.calls, call.refused = true →
    ∀ cmdStr, call.after.findCommand cmdStr = call.before.findCommand cmdStr

/-- When a component is deactivated, no other registration under its name is left. -/
def RemovesOwn (name : K → StdString) (s : System K) : Action K → Prop
  | .activate _ => True
  | .deactivate k => ∀ activation ∈ s.active k, ∀ r ∈ s.registered, r.cmdStr = name k →
      r.cmd = .own k activation.number

variable {name : K → StdString} {s s' : System K} {k : K} {activation : Activation}

/-- What is registered for a component is the command of its present activation. -/
def Owned (name : K → StdString) (s : System K) : Prop :=
  ∀ r ∈ s.registered, ∀ k n, r.cmd = .own k n → s.active k = some ⟨n, false⟩ ∧ r.cmdStr = name k

omit [DecidableEq K] in
theorem init_found : Found (init : System K).service (init : System K).registered := by
  have hne : bytes "q" ≠ bytes "h" := by decide +kernel
  have hempty : Found ({ defaultCmd := some .help } : Imp (Command K)) [] := fun cmdStr => by
    simp [Imp.findCommand]
  refine (hempty.add (by simp [Imp.findCommand]) _).add ?_ _
  rw [Imp.findCommand_addCommand, if_neg (fun h => hne h.1)]
  simp [Imp.findCommand]

omit [DecidableEq K] in
theorem init_owned : (init : System K).Owned name := by
  intro r hr k n hcmd
  simp only [init, List.mem_cons, List.not_mem_nil, or_false] at hr
  obtain rfl | rfl := hr <;> cases hcmd

theorem activates_owned (h : s.Owned name) (hinactive : s.active k = none) :
    (s.activates (name k) k).Owned name := by
  intro r hr k' n hcmd
  have hold : r ∈ s.registered → (s.activates (name k) k).active k' = some ⟨n, false⟩ ∧
      r.cmdStr = name k' := by
    intro hmem
    obtain ⟨hactive, hname⟩ := h r hmem k' n hcmd
    have hk : k' ≠ k := by
      rintro rfl
      simp [hinactive] at hactive
    exact ⟨by simpa [activates, Function.update_of_ne hk] using hactive, hname⟩
  cases hrefused : (s.service.addCommand (name k) (.own k s.activations)).2.isSome with
  | true => exact hold (by simpa [activates, hrefused] using hr)
  | false =>
      have hr' : r ∈ s.registered ∨ r = ⟨name k, .own k s.activations⟩ := by
        simpa [activates, hrefused] using hr
      obtain hmem | rfl := hr'
      · exact hold hmem
      · cases hcmd
        simp [activates, hrefused]

theorem deactivates_owned (h : s.Owned name) (hactive : s.active k = some activation) :
    (s.deactivates (name k) k activation).Owned name := by
  intro r hr k' n hcmd
  obtain ⟨hmem, hne⟩ := List.mem_filter.mp hr
  obtain ⟨hactive', hname⟩ := h r hmem k' n hcmd
  have hk : k' ≠ k := by
    rintro rfl
    obtain rfl : activation = ⟨n, false⟩ := Option.some.inj (hactive.symm.trans hactive')
    simp [hcmd] at hne
  exact ⟨by simpa [deactivates, Function.update_of_ne hk] using hactive', hname⟩

theorem KeepsRegistrations.activates (h : s.KeepsRegistrations) (cmdStr : StdString) (k : K) :
    (s.activates cmdStr k).KeepsRegistrations := by
  have hrefused := s.service.addCommand_refused cmdStr (.own k s.activations)
  constructor
  · cases hfind : s.service.findCommand cmdStr with
    | none =>
        simp only [System.activates, hrefused, hfind]
        exact h.found.add hfind _
    | some cmd =>
        simp only [System.activates, hrefused, hfind]
        exact h.found.refuse (by simp [hfind]) _
  · intro call hcall hcalled
    obtain hold | rfl := by simpa [System.activates] using hcall
    · exact h.refused call hold hcalled
    · intro k'
      have htaken : s.service.findCommand cmdStr ≠ none :=
        Option.isSome_iff_ne_none.mp (hrefused.symm.trans hcalled)
      rw [Imp.findCommand_addCommand, if_neg fun hk => htaken hk.2]

theorem KeepsRegistrations.deactivates (h : s.KeepsRegistrations) (howned : s.Owned name)
    (hactive : s.active k = some activation) (hcond : s.RemovesOwn name (.deactivate k)) :
    (s.deactivates (name k) k activation).KeepsRegistrations := by
  have hown : ∀ r ∈ s.registered, r.cmd = .own k activation.number ↔ r.cmdStr = name k :=
    fun r hr => ⟨fun hcmd => (howned r hr k _ hcmd).2, hcond activation hactive r hr⟩
  refine ⟨h.found.remove _ hown, fun call hcall hcalled => ?_⟩
  obtain hold | rfl := by simpa [System.deactivates] using hcall
  · exact h.refused call hold hcalled
  · -- nothing is registered under the name of a component that was refused
    have hfree : s.service.findCommand (name k) = none := by
      by_contra hsome
      obtain ⟨cmd, hcmd⟩ := Option.ne_none_iff_exists'.mp hsome
      obtain ⟨r, hr, hname, -⟩ := h.found.mem_of_findCommand hcmd
      obtain ⟨hactive', -⟩ := howned r hr k _ ((hown r hr).mpr hname)
      have hrefused : activation.refused = false :=
        congrArg Activation.refused (Option.some.inj (hactive.symm.trans hactive'))
      exact Bool.false_ne_true (hrefused.symm.trans hcalled)
    intro k'
    rw [Imp.findCommand_removeCommand]
    split_ifs with hk
    · rw [hk, hfree]
    · rfl

/-- Otherwise the command of another component is lost. -/
theorem not_keeps_of_removes_other {a : Action K} (hstep : s.step name a = some s')
    (hnot : ¬ s.RemovesOwn name a) : ¬ s'.KeepsRegistrations := by
  cases a with
  | activate k => exact absurd trivial hnot
  | deactivate k =>
      simp only [RemovesOwn, not_forall] at hnot
      obtain ⟨activation, hactive, r, hr, hname, hother⟩ := hnot
      simp only [step, Option.mem_def.mp hactive, Option.map_some, Option.some.injEq] at hstep
      subst hstep
      intro hkeeps
      have hleft : r ∈ (s.deactivates (name k) k activation).registered :=
        List.mem_filter.mpr ⟨hr, by simpa using hother⟩
      have hfound := hkeeps.found.findCommand_isSome hleft
      simp [deactivates, Imp.findCommand_removeCommand, hname] at hfound

/-- **Registrations last, and when.** Whatever the order of the calls and the names, the runs that
keep every registration until its own component removes it are those in which no component is
deactivated while its name is registered for another. -/
theorem keeps_registrations_iff_removes_own (name : K → StdString)
    (allowed : System K → Action K → Prop) :
    Runs.Keeps (step name) allowed KeepsRegistrations init s ↔
      Runs.Reachable (step name) (fun s a => allowed s a ∧ s.RemovesOwn name a) init s := by
  apply Runs.keeps_iff
  · intro s hs
    have hinv := hs.invariant (fun s => s.KeepsRegistrations ∧ s.Owned name)
      ⟨⟨init_found, by simp [init]⟩, init_owned⟩ fun s a s' hinv hcond hstep => ?_
    · exact hinv.1
    cases a with
    | activate k =>
        simp only [step] at hstep
        split_ifs at hstep with hactive
        cases hstep
        exact ⟨hinv.1.activates (name k) k, activates_owned hinv.2 (by simpa using hactive)⟩
    | deactivate k =>
        obtain ⟨activation, hactive, rfl⟩ := Option.map_eq_some_iff.mp hstep
        exact ⟨hinv.1.deactivates hinv.2 hactive hcond.2, deactivates_owned hinv.2 hactive⟩
  · exact fun s a s' _ _ hstep hnot => not_keeps_of_removes_other hstep hnot

/-- Two components use the name `c`; the second one, which was refused, is deactivated. -/
theorem refused_removes_command :
    ¬ ∀ s : System Bool, Runs.Reachable (step fun _ => bytes "c") (fun _ _ => True) init s →
      s.KeepsRegistrations := by
  refine Runs.not_forall_reachable [.activate false, .activate true, .deactivate true]
    ⟨_, Option.get_mem (by decide +kernel), fun hkeeps => ?_⟩
  have hfound := hkeeps.found (bytes "c")
  exact absurd hfound (by decide +kernel)

end System

end Shapeware.CommandService
