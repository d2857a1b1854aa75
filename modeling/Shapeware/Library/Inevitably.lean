import Shapeware.Library.Runs

/-!
# What happens in the end

`Leads` says that some continuation ends well. Here all of them do: however the allowed steps follow
one another, after finitely many of them the run has come to `P`, and until then it never gets stuck.
A rank that every step lowers shows this. Where the steps are those of any number of threads, the rank
has a part for each thread that is not idle.
-/

namespace Runs

variable {σ α : Type*}

/-- All runs by allowed steps come to `P`. -/
inductive Inevitably (step : σ → α → Option σ) (allowed : σ → α → Prop) (P : σ → Prop) : σ → Prop
  | here {s : σ} : P s → Inevitably step allowed P s
  | later {s : σ} : (∃ a t, allowed s a ∧ step s a = some t) →
      (∀ a t, allowed s a → step s a = some t → Inevitably step allowed P t) →
      Inevitably step allowed P s

variable {step : σ → α → Option σ} {allowed : σ → α → Prop} {P Q : σ → Prop} {s : σ}

namespace Inevitably

theorem leads (h : Inevitably step allowed P s) : Leads step allowed s P := by
  induction h with
  | here hP => exact leads_of_mem hP
  | later hgoes _ ih =>
      obtain ⟨a, t, hallowed, hs⟩ := hgoes
      exact (ih a t hallowed hs).head hallowed hs

theorem mono (h : Inevitably step allowed P s) (hle : ∀ s, P s → Q s) :
    Inevitably step allowed Q s := by
  induction h with
  | here hP => exact .here (hle _ hP)
  | later hgoes _ ih => exact .later hgoes ih

theorem after {a : α} {t : σ} (h : Inevitably step allowed P s) (hnot : ¬ P s)
    (hallowed : allowed s a) (hs : step s a = some t) : Inevitably step allowed P t := by
  cases h with
  | here hP => exact absurd hP hnot
  | later _ hall => exact hall a t hallowed hs

end Inevitably

/-- If outside `P` there is an allowed step, and every one of them lowers the rank and keeps the
invariant, all runs come to `P`, and the invariant still holds there. -/
theorem inevitably_of_rank (inv : σ → Prop) (rank : σ → Nat)
    (hgoes : ∀ s, inv s → ¬ P s → ∃ a t, allowed s a ∧ step s a = some t)
    (hstep : ∀ s a t, inv s → ¬ P s → allowed s a → step s a = some t → inv t ∧ rank t < rank s)
    (h : inv s) : Inevitably step allowed (fun t => P t ∧ inv t) s := by
  induction hn : rank s using Nat.strong_induction_on generalizing s with
  | _ n ih =>
      by_cases hP : P s
      · exact .here ⟨hP, h⟩
      · refine .later (hgoes s h hP) fun a t hallowed hs => ?_
        obtain ⟨hinv, hlt⟩ := hstep s a t h hP hallowed hs
        exact ih (rank t) (hn ▸ hlt) hinv rfl

/-- An invariant that keeps all runs away from `P`. -/
theorem not_inevitably_of_invariant (inv : σ → Prop) (h : inv s)
    (hstep : ∀ s a t, inv s → allowed s a → step s a = some t → inv t)
    (hnot : ∀ s, inv s → ¬ P s) : ¬ Inevitably step allowed P s := fun hend =>
  not_leads_of_invariant inv h hstep hnot hend.leads

/-! ### What the threads are still to do -/

section Threads

variable {T C : Type*} [DecidableEq T] {idle c : C} {callers : T → C} {t : T} {F : Finset T}

/-- The threads of `F` together. -/
def owed (weight : C → Nat) (F : Finset T) (callers : T → C) : Nat := ∑ t ∈ F, weight (callers t)

theorem owed_update (weight : C → Nat) (ht : t ∈ F) (callers : T → C) (c : C) :
    owed weight F (Function.update callers t c) + weight (callers t) =
      owed weight F callers + weight c := by
  have hrest : ∑ u ∈ F.erase t, weight (Function.update callers t c u) =
      ∑ u ∈ F.erase t, weight (callers u) :=
    Finset.sum_congr rfl fun u hu => by rw [Function.update_of_ne (Finset.ne_of_mem_erase hu)]
  rw [owed, owed, ← Finset.add_sum_erase F _ ht, ← Finset.add_sum_erase F _ ht, hrest,
    Function.update_self]
  omega

/-- The threads that are not in `F` are idle. -/
def IdleOutside (idle : C) (F : Finset T) (callers : T → C) : Prop := ∀ t, t ∉ F → callers t = idle

omit [DecidableEq T] in
theorem exists_idleOutside (h : {t | callers t ≠ idle}.Finite) :
    ∃ F : Finset T, IdleOutside idle F callers :=
  ⟨h.toFinset, fun t ht => by simpa using ht⟩

omit [DecidableEq T] in
/-- A thread that is not idle is in `F`. -/
theorem IdleOutside.mem (h : IdleOutside idle F callers) (ht : callers t ≠ idle) : t ∈ F := by
  by_contra hnot
  exact ht (h t hnot)

theorem IdleOutside.update (h : IdleOutside idle F callers) (ht : t ∈ F) :
    IdleOutside idle F (Function.update callers t c) := by
  intro u hu
  have hne : u ≠ t := fun heq => hu (heq ▸ ht)
  rw [Function.update_of_ne hne]
  exact h u hu

theorem finite_update (h : {t | callers t ≠ idle}.Finite) (t : T) (c : C) :
    {u | Function.update callers t c u ≠ idle}.Finite := by
  refine (h.insert t).subset fun u hu => ?_
  by_cases hut : u = t
  · exact .inl hut
  · exact .inr (by simpa [Function.update_of_ne hut] using hu)

end Threads

end Runs
