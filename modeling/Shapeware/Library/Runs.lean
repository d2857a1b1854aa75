import Mathlib

/-!
# Guarded runs of a partial step function

A machine is a function `step : σ → α → Option σ`, defined where the action is enabled. What its
environment is assumed to do is a guard on actions, so one machine serves several assumptions: a
property of all runs under an assumption is an invariant of the states reachable under the guard.
-/

namespace Runs

variable {σ α : Type*}

/-- The states reached from `init` when every action is taken in a state that allows it. -/
inductive Reachable (step : σ → α → Option σ) (allowed : σ → α → Prop) (init : σ) : σ → Prop
  | refl : Reachable step allowed init init
  | tail {s t : σ} (a : α) :
      Reachable step allowed init s → allowed s a → step s a = some t →
        Reachable step allowed init t

variable {step : σ → α → Option σ} {allowed allowed' : σ → α → Prop} {init s t u : σ}

namespace Reachable

/-- What holds at the start and survives every allowed step holds in every reachable state. -/
theorem invariant (inv : σ → Prop) (h : Reachable step allowed init s) (hinit : inv init)
    (hstep : ∀ s a t, inv s → allowed s a → step s a = some t → inv t) : inv s := by
  induction h with
  | refl => exact hinit
  | tail a _ hallowed hs ih => exact hstep _ a _ ih hallowed hs

/-- The same, where the step may also use that the state it starts from is reachable. -/
theorem invariant_of_reachable (inv : σ → Prop) (h : Reachable step allowed init s)
    (hinit : inv init)
    (hstep : ∀ s a t, Reachable step allowed init s → inv s → allowed s a → step s a = some t →
      inv t) : inv s := by
  induction h with
  | refl => exact hinit
  | tail a hbefore hallowed hs ih => exact hstep _ a _ hbefore ih hallowed hs

theorem mono (hle : ∀ s a, allowed s a → allowed' s a) (h : Reachable step allowed init s) :
    Reachable step allowed' init s := by
  induction h with
  | refl => exact .refl
  | tail a _ hallowed hs ih => exact .tail a ih (hle _ a hallowed) hs

theorem trans (hst : Reachable step allowed s t) (htu : Reachable step allowed t u) :
    Reachable step allowed s u := by
  induction htu with
  | refl => exact hst
  | tail a _ hallowed hs ih => exact .tail a ih hallowed hs

theorem head {a : α} (hallowed : allowed s a) (hs : step s a = some t)
    (h : Reachable step allowed t u) : Reachable step allowed s u :=
  (Reachable.tail a .refl hallowed hs).trans h

end Reachable

/-- A run over a list of actions, defined when every action is allowed and enabled. -/
def run (step : σ → α → Option σ) (allowed : σ → α → Prop) [∀ s a, Decidable (allowed s a)] :
    σ → List α → Option σ
  | s, [] => some s
  | s, a :: as => if allowed s a then (step s a).bind fun t => run step allowed t as else none

theorem reachable_of_run [∀ s a, Decidable (allowed s a)] {as : List α}
    (h : run step allowed init as = some s) : Reachable step allowed init s := by
  induction as generalizing init with
  | nil =>
      obtain rfl : init = s := by simpa [run] using h
      exact .refl
  | cons a as ih =>
      rw [run] at h
      split_ifs at h with hallowed
      obtain ⟨t, hs, hrest⟩ := Option.bind_eq_some_iff.mp h
      exact .head hallowed hs (ih hrest)

/-- One run that ends inside `P` reaches a state in `P`. -/
theorem exists_reachable [∀ s a, Decidable (allowed s a)] {P : σ → Prop} (as : List α)
    (h : ∃ s ∈ run step allowed init as, P s) : ∃ s, Reachable step allowed init s ∧ P s := by
  obtain ⟨s, hrun, hP⟩ := h
  exact ⟨s, reachable_of_run hrun, hP⟩

/-- One run that ends outside `P` refutes `P` for all reachable states. -/
theorem not_forall_reachable [∀ s a, Decidable (allowed s a)] {P : σ → Prop} (as : List α)
    (h : ∃ s ∈ run step allowed init as, ¬ P s) :
    ¬ ∀ s, Reachable step allowed init s → P s := by
  obtain ⟨s, hrun, hnot⟩ := h
  exact fun hall => hnot (hall s (reachable_of_run hrun))

/-! ### Exact conditions -/

/-- If a step that does not meet a condition breaks something for good, then every step to a state
has met the condition, or the state is broken. -/
theorem reachable_or_broken {cond : σ → α → Prop} (broken : σ → Prop)
    (h : Reachable step allowed init s)
    (hbreaks : ∀ s a t, Reachable step (fun s a => allowed s a ∧ cond s a) init s →
      step s a = some t → ¬ cond s a → broken t)
    (hlasts : ∀ s a t, broken s → allowed s a → step s a = some t → broken t) :
    Reachable step (fun s a => allowed s a ∧ cond s a) init s ∨ broken s := by
  induction h with
  | refl => exact .inl .refl
  | @tail s t a _ hallowed hs ih =>
      obtain hreach | hbad := ih
      · by_cases hcond : cond s a
        · exact .inl (.tail a hreach ⟨hallowed, hcond⟩ hs)
        · exact .inr (hbreaks s a t hreach hs hcond)
      · exact .inr (hlasts s a t hbad hallowed hs)

/-- If `P` holds as long as every step meets a condition, and a step that does not meet it breaks
`P` for good, then `P` holds in a state exactly if every step to it met the condition. -/
theorem iff_reachable_of_breaks {cond : σ → α → Prop} {P : σ → Prop} (broken : σ → Prop)
    (h : Reachable step allowed init s)
    (hkeeps : ∀ s, Reachable step (fun s a => allowed s a ∧ cond s a) init s → P s)
    (hbreaks : ∀ s a t, Reachable step (fun s a => allowed s a ∧ cond s a) init s →
      step s a = some t → ¬ cond s a → broken t)
    (hlasts : ∀ s a t, broken s → step s a = some t → broken t)
    (hbroken : ∀ s, broken s → ¬ P s) :
    P s ↔ Reachable step (fun s a => allowed s a ∧ cond s a) init s := by
  refine ⟨fun hP => ?_, hkeeps s⟩
  have hor := reachable_or_broken broken h hbreaks fun s a t hbad _ => hlasts s a t hbad
  exact hor.resolve_right fun hbad => hbroken s hbad hP

/-- The states reached by allowed runs on which `P` holds from the first state to the last. -/
def Keeps (step : σ → α → Option σ) (allowed : σ → α → Prop) (P : σ → Prop) (init s : σ) : Prop :=
  P init ∧ Reachable step (fun s a => allowed s a ∧ ∀ t, step s a = some t → P t) init s

/-- If `P` holds as long as every step meets a condition, and not right after a step that does not
meet it, then the runs that keep `P` are those whose steps all meet the condition. -/
theorem keeps_iff {cond : σ → α → Prop} {P : σ → Prop}
    (hkeeps : ∀ s, Reachable step (fun s a => allowed s a ∧ cond s a) init s → P s)
    (hbreaks : ∀ s a t, Reachable step (fun s a => allowed s a ∧ cond s a) init s →
      allowed s a → step s a = some t → ¬ cond s a → ¬ P t) :
    Keeps step allowed P init s ↔ Reachable step (fun s a => allowed s a ∧ cond s a) init s := by
  constructor
  · rintro ⟨-, h⟩
    induction h with
    | refl => exact .refl
    | @tail s t a _ hstep hs ih =>
        refine .tail a ih ⟨hstep.1, ?_⟩ hs
        by_contra hcond
        exact hbreaks s a t ih hstep.1 hs hcond (hstep.2 t hs)
  · intro h
    refine ⟨hkeeps init .refl, ?_⟩
    induction h with
    | refl => exact .refl
    | @tail s t a hreach hstep hs ih =>
        refine .tail a ih ⟨hstep.1, fun t' hs' => ?_⟩ hs
        exact hkeeps t' (.tail a hreach hstep hs')

/-! ### Progress

`Leads` is possibility, not fairness: some continuation by allowed steps ends in `P`. -/

def Leads (step : σ → α → Option σ) (allowed : σ → α → Prop) (s : σ) (P : σ → Prop) : Prop :=
  ∃ t, Reachable step allowed s t ∧ P t

theorem leads_of_mem {P : σ → Prop} (h : P s) : Leads step allowed s P :=
  ⟨s, .refl, h⟩

theorem Leads.head {P : σ → Prop} {a : α} (hallowed : allowed s a) (hs : step s a = some t)
    (h : Leads step allowed t P) : Leads step allowed s P := by
  obtain ⟨u, hreach, hP⟩ := h
  exact ⟨u, hreach.head hallowed hs, hP⟩

/-- If outside `P` an allowed step always lowers the rank and keeps the invariant, `P` can be
reached. -/
theorem leads_of_rank {P : σ → Prop} (inv : σ → Prop) (rank : σ → Nat)
    (hstep : ∀ s, inv s → ¬ P s →
      ∃ a t, allowed s a ∧ step s a = some t ∧ inv t ∧ rank t < rank s)
    (h : inv s) : Leads step allowed s P := by
  induction hn : rank s using Nat.strong_induction_on generalizing s with
  | _ n ih =>
      by_cases hP : P s
      · exact leads_of_mem hP
      · obtain ⟨a, t, hallowed, hs, hinv, hlt⟩ := hstep s h hP
        exact .head hallowed hs (ih (rank t) (hn ▸ hlt) hinv rfl)

/-- If no allowed step leaves `inv`, and `inv` excludes `P`, then `P` cannot be reached. -/
theorem not_leads_of_invariant {P : σ → Prop} (inv : σ → Prop) (h : inv s)
    (hstep : ∀ s a t, inv s → allowed s a → step s a = some t → inv t)
    (hnot : ∀ s, inv s → ¬ P s) : ¬ Leads step allowed s P := by
  rintro ⟨t, hreach, hP⟩
  exact hnot t (hreach.invariant inv h hstep) hP

end Runs
