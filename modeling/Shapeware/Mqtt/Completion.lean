import Shapeware.Mqtt.Ledger

/-!
# Completion callbacks

The context of a request is stored in a critical section after the library call, so the library may
answer before the context is there. An early answer finds nothing to call, and the context that is
stored afterwards stays in its map. When every answer comes after its context has been stored, each
accepted call is completed exactly once and leaves nothing behind, whatever else interleaves.
-/

namespace Shapeware.Mqtt.Session

/-- The library gives requests in flight distinct tokens, and the publish context limit is not
reached. When an answer may come is left open. -/
def LibraryRun (w : Session) (a : Action) : Prop := w.DistinctTokens a ∧ w.BelowLimit a

/-- Moreover no answer overtakes the critical section of its call. -/
def OrderedRun (w : Session) (a : Action) : Prop := w.LibraryRun a ∧ w.AnswerAfterStore a

instance (w : Session) (a : Action) : Decidable (w.LibraryRun a) :=
  inferInstanceAs (Decidable (w.DistinctTokens a ∧ w.BelowLimit a))

instance (w : Session) (a : Action) : Decidable (w.OrderedRun a) :=
  inferInstanceAs (Decidable (w.LibraryRun a ∧ w.AnswerAfterStore a))

structure CompletedExactly (w : Session) : Prop where
  /-- An answered call has been reported once, to its own handler and with its own topic; a call
  that is not answered yet has not been reported. -/
  once : ∀ r ∈ w.accepted, (∃ answer, (r, answer) ∈ w.answered ∧
      w.completions r.call = [r.completion answer]) ∨
    r ∈ w.inFlight ∧ w.completions r.call = []
  /-- No map holds the context of an answered request. -/
  none_left : ∀ p ∈ w.answered, ∀ key, w.imp.contextAt key ≠ some p.1.context

variable {w : Session} {bufferSize : Int}

theorem dropped_eq_nil (h : Runs.Reachable step OrderedRun (init bufferSize) w) :
    w.dropped = [] := by
  refine h.invariant (fun w => w.dropped = []) rfl ?_
  rintro w a w' hnil ⟨⟨_, hlimit⟩, _⟩ hstep
  obtain ⟨op, retval, outcome, rfl, rfl⟩ | ⟨op, token, rfl, rfl⟩ | ⟨op, token, rfl, rfl⟩ |
    ⟨r, hr, rfl, rfl⟩ | ⟨r, hr, answer, rfl, rfl⟩ | ⟨token, rfl, rfl⟩ := step_cases hstep
  · exact hnil
  · have hkept : w.imp.drops op = false := hlimit
    simp [accepts, stores, hkept, hnil]
  · exact hnil
  · simp [stores, hlimit r hr rfl, hnil]
  · exact hnil
  · exact hnil

theorem completed_exactly (h : Runs.Reachable step OrderedRun (init bufferSize) w) :
    w.CompletedExactly := by
  obtain ⟨hnum, hcor⟩ := ledger Set.univ
    (h.mono fun _ _ hallowed => ⟨hallowed.1.1.distinctOn, hallowed.2⟩)
  have hdropped := dropped_eq_nil h
  constructor
  case once =>
    intro r hr
    obtain hflight | ⟨answer, hanswer⟩ := hnum.accepted_cases r hr
    · exact Or.inr ⟨hflight, hcor.completions_inFlight r hflight trivial⟩
    · exact Or.inl ⟨answer, hanswer,
        hcor.completions_answered _ hanswer trivial (by simp [hdropped])⟩
  case none_left =>
    intro p hp key hcontext
    obtain ⟨r, hr, _, heq⟩ := (hcor.tracks key trivial _).mp hcontext
    obtain ⟨haccepted, hnot⟩ := hnum.answered_accepted p hp
    have hcall : r.call = p.1.call := by
      have hhndl := congrArg (fun c => (Context.complete c .failure).hndl) heq
      simpa [Request.context] using hhndl
    exact hnot (hnum.call_inj r (hnum.inFlight_accepted r hr.1) p.1 haccepted hcall ▸ hr.1)

/-- Two threads and three requests, answered out of order: the run meets the condition, and the
token of the subscription is used again. -/
theorem completed_exactly_interleaved : ∃ w, Runs.Reachable step OrderedRun (init 10) w ∧
    w.inFlight = [] ∧ w.answered.length = 3 ∧ w.CompletedExactly := by
  let actions : List Action :=
    [.accept (.subscribe (bytes "a") 1) 1, .accept (.unsubscribe (bytes "b")) 2, .store 1, .store 0,
      .answer 1 .failure, .answer 0 (.success 1), .accept (.publish (bytes "c") 0 [1]) 1, .store 2,
      .answer 2 (.success 0)]
  let w := (Runs.run step OrderedRun (init 10) actions).get (by decide +kernel)
  have hw : Runs.Reachable step OrderedRun (init 10) w :=
    Runs.reachable_of_run (Option.some_get _).symm
  exact ⟨w, hw, by decide +kernel, by decide +kernel, completed_exactly hw⟩

/-- The library answers a subscription before its thread has stored the context: the handler is
never called, and the context stays in the map. -/
theorem early_answer_is_lost :
    ¬ ∀ w, Runs.Reachable step LibraryRun (init 10) w → w.CompletedExactly := by
  refine Runs.not_forall_reachable
    [.accept (.subscribe (bytes "a") 1) 1, .answer 0 (.success 1), .store 0]
    ⟨_, Option.get_mem (by decide +kernel), fun h => ?_⟩
  refine h.none_left (⟨0, 1, .subscribe (bytes "a") 1⟩, .success 1) (by decide +kernel)
    (.subscribe, 1) (by decide +kernel)

end Shapeware.Mqtt.Session
