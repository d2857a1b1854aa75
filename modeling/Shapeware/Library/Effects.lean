import Mathlib

/-!
# Calls that throw, and keep what they have done

A call reads and writes a state, and may throw; what it did before stays done. It follows a script if
it does the operations of the script one after the other, to the end if a condition holds, and else
until one of them throws.
-/

namespace Effects

variable {σ ε ω α β : Type}

/-- What a call comes to, and what it leaves behind. -/
def exec (call : ExceptT ε (StateM σ) α) (s : σ) : Except ε α × σ := call.run.run s

section Exec

variable (s : σ)

@[simp] theorem exec_pure (a : α) : exec (pure a : ExceptT ε (StateM σ) α) s = (.ok a, s) := rfl

@[simp] theorem exec_throw (e : ε) :
    exec (throw e : ExceptT ε (StateM σ) α) s = (.error e, s) := rfl

@[simp] theorem exec_get : exec (get : ExceptT ε (StateM σ) σ) s = (.ok s, s) := rfl

@[simp] theorem exec_modify (f : σ → σ) :
    exec (modify f : ExceptT ε (StateM σ) PUnit) s = (.ok ⟨⟩, f s) := rfl

@[simp] theorem exec_bind (call : ExceptT ε (StateM σ) α) (next : α → ExceptT ε (StateM σ) β) :
    exec (call >>= next) s =
      match exec call s with
      | (.ok a, s') => exec (next a) s'
      | (.error e, s') => (.error e, s') := by
  rw [exec, exec, ExceptT.run_bind, StateT.run_bind]
  cases h : call.run.run s with
  | mk result s' => cases result <;> rfl

@[simp] theorem exec_map (f : α → β) (call : ExceptT ε (StateM σ) α) :
    exec (f <$> call) s =
      match exec call s with
      | (.ok a, s') => (.ok (f a), s')
      | (.error e, s') => (.error e, s') := by
  rw [← bind_pure_comp, exec_bind]
  rfl

@[simp] theorem exec_tryCatch (call : ExceptT ε (StateM σ) α)
    (handler : ε → ExceptT ε (StateM σ) α) :
    exec (tryCatch call handler) s =
      match exec call s with
      | (.ok a, s') => (.ok a, s')
      | (.error e, s') => exec (handler e) s' := by
  rw [exec, exec, ExceptT.run_tryCatch, StateT.run_bind]
  cases h : call.run.run s with
  | mk result s' => cases result <;> rfl

@[simp] theorem exec_ite (c : Prop) [Decidable c] (call other : ExceptT ε (StateM σ) α) :
    exec (if c then call else other) s = if c then exec call s else exec other s :=
  apply_ite (exec · s) c call other

end Exec

/-! ### Scripts -/

/-- With `ok`, the call returns the value, and without it, it throws; either way it does nothing of
the script itself. -/
structure Quiet (performed : σ → List ω) (call : ExceptT ε (StateM σ) α) (value : α) (ok : Prop) :
    Prop where
  returns : ok → ∀ s, ∃ s', exec call s = (.ok value, s') ∧ performed s' = performed s
  throws : ¬ ok → ∀ s, ∃ e s', exec call s = (.error e, s') ∧ performed s' = performed s

namespace Quiet

variable {performed : σ → List ω} {call : ExceptT ε (StateM σ) α}
  {next : α → ExceptT ε (StateM σ) β} {value : α} {result : β} {ok ok' : Prop}

theorem pure (performed : σ → List ω) (value : α) :
    Quiet performed (Pure.pure value : ExceptT ε (StateM σ) α) value True :=
  ⟨fun _ s => ⟨s, rfl, rfl⟩, fun hnot => (hnot trivial).elim⟩

theorem modify {f : σ → σ} (hf : ∀ s, performed (f s) = performed s) :
    Quiet performed (MonadState.modifyGet fun s => (⟨⟩, f s) : ExceptT ε (StateM σ) PUnit) ⟨⟩ True :=
  ⟨fun _ s => ⟨f s, rfl, hf s⟩, fun hnot => (hnot trivial).elim⟩

theorem bind (h : Quiet performed call value ok)
    (hnext : ok → Quiet performed (next value) result ok') :
    Quiet performed (call >>= next) result (ok ∧ ok') where
  returns := by
    rintro ⟨hok, hok'⟩ s
    obtain ⟨s₁, hcall, hperformed⟩ := h.returns hok s
    obtain ⟨s₂, hrest, hperformed'⟩ := (hnext hok).returns hok' s₁
    exact ⟨s₂, by simp [hcall, hrest], hperformed'.trans hperformed⟩
  throws := by
    intro hnot s
    by_cases hok : ok
    · obtain ⟨s₁, hcall, hperformed⟩ := h.returns hok s
      obtain ⟨e, s₂, hthrows, hperformed'⟩ := (hnext hok).throws (fun hok' => hnot ⟨hok, hok'⟩) s₁
      exact ⟨e, s₂, by simp [hcall, hthrows], hperformed'.trans hperformed⟩
    · obtain ⟨e, s₁, hthrows, hperformed⟩ := h.throws hok s
      exact ⟨e, s₁, by simp [hthrows], hperformed⟩

theorem congr (h : Quiet performed call value ok) (hok : ok ↔ ok') :
    Quiet performed call value ok' := by
  rwa [← propext hok]

end Quiet

/-- With `ok`, the call does what is in the script and returns the value; without it, it throws at
an operation that can throw. -/
structure Follows (performed : σ → List ω) (canThrow : ω → Bool) (call : ExceptT ε (StateM σ) α)
    (value : α) (script : List ω) (ok : Prop) : Prop where
  returns : ok → ∀ s, ∃ s', exec call s = (.ok value, s') ∧ performed s' = performed s ++ script
  throws : ¬ ok → ∀ s, ∃ e s' done op rest, exec call s = (.error e, s') ∧
    performed s' = performed s ++ done ∧ script = done ++ op :: rest ∧ canThrow op = true

namespace Follows

variable {performed : σ → List ω} {canThrow : ω → Bool} {call : ExceptT ε (StateM σ) α}
  {next : α → ExceptT ε (StateM σ) β} {value : α} {result : β} {script script' : List ω}
  {ok ok' : Prop}

theorem bind (h : Follows performed canThrow call value script ok)
    (hnext : ok → Follows performed canThrow (next value) result script' ok') :
    Follows performed canThrow (call >>= next) result (script ++ script') (ok ∧ ok') where
  returns := by
    rintro ⟨hok, hok'⟩ s
    obtain ⟨s₁, hcall, hperformed⟩ := h.returns hok s
    obtain ⟨s₂, hrest, hperformed'⟩ := (hnext hok).returns hok' s₁
    refine ⟨s₂, by simp [hcall, hrest], ?_⟩
    rw [hperformed', hperformed, List.append_assoc]
  throws := by
    intro hnot s
    by_cases hok : ok
    · obtain ⟨s₁, hcall, hperformed⟩ := h.returns hok s
      obtain ⟨e, s₂, done, op, rest, hthrows, hperformed', hscript, hop⟩ :=
        (hnext hok).throws (fun hok' => hnot ⟨hok, hok'⟩) s₁
      refine ⟨e, s₂, script ++ done, op, rest, by simp [hcall, hthrows], ?_, ?_, hop⟩
      · rw [hperformed', hperformed, List.append_assoc]
      · rw [hscript, List.append_assoc]
    · obtain ⟨e, s₁, done, op, rest, hthrows, hperformed, hscript, hop⟩ := h.throws hok s
      exact ⟨e, s₁, done, op, rest ++ script', by simp [hthrows], hperformed, by simp [hscript], hop⟩

theorem congr (h : Follows performed canThrow call value script ok) (hok : ok ↔ ok') :
    Follows performed canThrow call value script ok' := by
  rwa [← propext hok]

/-- The call returns exactly if the condition holds. -/
theorem returns_iff (h : Follows performed canThrow call value script ok) (s : σ) :
    (∃ a s', exec call s = (.ok a, s')) ↔ ok := by
  constructor
  · rintro ⟨a, s', hreturns⟩
    by_contra hnot
    obtain ⟨e, s₁, done, op, rest, hthrows, -⟩ := h.throws hnot s
    simp [hthrows] at hreturns
  · intro hok
    obtain ⟨s', hcall, -⟩ := h.returns hok s
    exact ⟨value, s', hcall⟩

end Follows

end Effects
