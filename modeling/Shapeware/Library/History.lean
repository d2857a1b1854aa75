import Mathlib

/-!
# What came before

A trace lists what has happened. `Always Q` says that `Q` held, of all that came before, whenever
something happened. A script lists what is to be done, one thing after the other; where a thread is
in its script says what it has done.
-/

namespace History

variable {α : Type*} {Q : List α → α → Prop} {trace : List α} {e : α}

/-- `Q` holds of every event and of what came before it. -/
def Always (Q : List α → α → Prop) (trace : List α) : Prop :=
  ∀ before e, before ++ [e] <+: trace → Q before e

theorem always_nil : Always Q [] := by
  intro before e hbefore
  simp at hbefore

theorem always_append_singleton : Always Q (trace ++ [e]) ↔ Always Q trace ∧ Q trace e := by
  constructor
  · intro h
    exact ⟨fun before e' hbefore => h before e' (hbefore.trans (List.prefix_append _ _)),
      h trace e (List.prefix_refl _)⟩
  · rintro ⟨h, hlast⟩ before e' hbefore
    rcases List.prefix_concat_iff.mp hbefore with heq | hold
    · obtain ⟨rfl, he⟩ := List.append_inj' heq rfl
      cases he
      exact hlast
    · exact h before e' hold

/-- A fact about what is left of a script, by its computation. -/
theorem of_suffix {script rest : List α} {op : α} {P : α → List α → Prop}
    (hall : ∀ l ∈ script.tails, ∀ op ∈ l.head?, P op l.tail) (h : op :: rest <:+ script) :
    P op rest :=
  hall _ ((List.mem_tails _ _).mpr h) _ rfl

/-- `rest` is what is left to do of the script, and `P` holds of all that was done. -/
def DoneBefore (script rest : List α) (P : α → Prop) : Prop :=
  ∃ done, script = done ++ rest ∧ ∀ op ∈ done, P op

namespace DoneBefore

variable {script rest : List α} {op : α} {P P' : α → Prop}

theorem start (script : List α) (P : α → Prop) : DoneBefore script script P :=
  ⟨[], rfl, by simp⟩

theorem next (h : DoneBefore script (op :: rest) P) (hop : P op) : DoneBefore script rest P := by
  obtain ⟨done, rfl, hdone⟩ := h
  refine ⟨done ++ [op], by simp, fun op' hop' => ?_⟩
  obtain hold | hnew := List.mem_append.mp hop'
  · exact hdone op' hold
  · rwa [List.mem_singleton.mp hnew]

theorem mono (h : DoneBefore script rest P) (himp : ∀ op ∈ script, P op → P' op) :
    DoneBefore script rest P' := by
  obtain ⟨done, rfl, hdone⟩ := h
  exact ⟨done, rfl, fun op hop => himp op (List.mem_append_left _ hop) (hdone op hop)⟩

theorem all (h : DoneBefore script [] P) : ∀ op ∈ script, P op := by
  obtain ⟨done, rfl, hdone⟩ := h
  simpa using hdone

theorem suffix (h : DoneBefore script rest P) : rest <:+ script := by
  obtain ⟨done, rfl, -⟩ := h
  exact List.suffix_append done rest

theorem head_mem (h : DoneBefore script (op :: rest) P) : op ∈ script := by
  obtain ⟨done, rfl, -⟩ := h
  simp

/-- What comes before an operation in the script was done before it. -/
theorem before [DecidableEq α] (h : DoneBefore script (op :: rest) P) :
    ∀ op' ∈ script.takeWhile (· ≠ op), P op' := by
  obtain ⟨done, rfl, hdone⟩ := h
  intro op' hop'
  refine hdone op' ?_
  by_cases hall : ∀ x ∈ done, x ≠ op
  · rw [List.takeWhile_append_of_pos (by simpa using hall)] at hop'
    simpa using hop'
  · have htaken : done.takeWhile (· ≠ op) <+: done := List.takeWhile_prefix _
    have hshort : (done.takeWhile (· ≠ op)).length ≠ done.length := by
      intro hlength
      have hsame := htaken.eq_of_length hlength
      refine hall fun x hx => ?_
      have hx' := List.mem_takeWhile_imp (hsame.symm ▸ hx)
      simpa using hx'
    rw [List.takeWhile_append, if_neg hshort] at hop'
    exact htaken.subset hop'

end DoneBefore

end History
