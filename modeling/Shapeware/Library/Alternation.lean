import Mathlib

/-!
# Taking turns

Two kinds of events alternate when the first one is followed by the second, the second by the first,
and so on. A machine that alternates knows at every moment whose turn it is: the event `x` is due
after the list `l` when `l` can go on with `x`.
-/

namespace Alternation

variable {τ : Type*}

/-- The list is `a, b, a, b, …`, and ends anywhere. -/
def Alternates (a b : τ) : List τ → Prop
  | [] => True
  | x :: xs => x = a ∧ Alternates b a xs

/-- After `l` it is the turn of `x`. -/
def Due (a b : τ) (l : List τ) (x : τ) : Prop := Alternates a b (l ++ [x])

variable {a b x : τ} {l l' : List τ}

theorem Alternates.of_append (h : Alternates a b (l ++ l')) : Alternates a b l := by
  induction l generalizing a b with
  | nil => trivial
  | cons y l ih => exact ⟨h.1, ih h.2⟩

theorem due_nil : Due a b [] a := ⟨rfl, trivial⟩

theorem Due.alternates (h : Due a b l x) : Alternates a b l := h.of_append

/-- Both kinds at once, since dropping the first event exchanges them. -/
theorem due_append_singleton :
    (Due a b l a → Due a b (l ++ [a]) b) ∧ (Due a b l b → Due a b (l ++ [b]) a) := by
  induction l generalizing a b with
  | nil =>
      refine ⟨fun _ => ⟨rfl, rfl, trivial⟩, ?_⟩
      rintro ⟨rfl, _⟩
      exact ⟨rfl, rfl, trivial⟩
  | cons y l ih =>
      obtain ⟨hfirst, hsecond⟩ := ih (a := b) (b := a)
      exact ⟨fun h => ⟨h.1, hsecond h.2⟩, fun h => ⟨h.1, hfirst h.2⟩⟩

theorem Due.first (h : Due a b l a) : Due a b (l ++ [a]) b := due_append_singleton.1 h

theorem Due.second (h : Due a b l b) : Due a b (l ++ [b]) a := due_append_singleton.2 h

/-- When it is the first one's turn, both have occurred equally often. -/
theorem Due.count_eq [DecidableEq τ] (h : Due a b l a) (hne : a ≠ b) : l.count a = l.count b := by
  have hboth : (Due a b l a → l.count a = l.count b) ∧
      (Due a b l b → l.count a = l.count b + 1) := by
    clear h
    induction l generalizing a b with
    | nil => exact ⟨fun _ => rfl, fun h => absurd h.1.symm hne⟩
    | cons y l ih =>
        obtain ⟨hfirst, hsecond⟩ := ih hne.symm
        refine ⟨fun h => ?_, fun h => ?_⟩ <;> obtain ⟨rfl, h⟩ := h
        · rw [List.count_cons_self, List.count_cons_of_ne hne, hsecond h]
        · rw [List.count_cons_self, List.count_cons_of_ne hne, hfirst h]
  exact hboth.1 h

end Alternation
