import Shapeware.Mqtt.Contexts
import Shapeware.Library.Runs

/-!
# Sessions: the service between application threads and the client library

Any number of application threads call `subscribe`, `unsubscribe` and `publish`, and the library
answers what it has accepted from a thread of its own. A call is a step of its own, or two: the
library accepts the request, and later the thread stores the context. What the library is assumed to
do is stated as guards on the actions.

The handlers of a call are known by the number of the call, so the log of handler calls says which
request every call belongs to.
-/

namespace Shapeware.Mqtt

/-- An accepted request: the call it came from, its token and what it asks for. -/
structure Request where
  call : Nat
  token : Int
  op : Op
deriving DecidableEq

namespace Request

def key (r : Request) : Kind × Int := (r.op.kind, r.token)

def context (r : Request) : Context Nat := r.op.context r.call

/-- The call of the request's own handler, with its own topic and the reported result. -/
def completion (r : Request) (answer : Answer) : HandlerCall Nat := r.context.complete answer

@[simp]
theorem isCompletion_completion (r : Request) (answer : Answer) :
    (r.completion answer).isCompletion = true :=
  isCompletion_complete _ _

@[simp]
theorem hndl_completion (r : Request) (answer : Answer) : (r.completion answer).hndl = r.call :=
  hndl_complete_context _ _ _

end Request

structure Session where
  imp : Imp Nat
  /-- The number of calls made so far. -/
  calls : Nat := 0
  /-- The calls that did not throw: their numbers, and what they asked for. -/
  returned : List (Nat × Op) := []
  /-- The requests the library has accepted, in order. -/
  accepted : List Request := []
  /-- The accepted requests that are not answered yet. -/
  inFlight : List Request := []
  /-- The accepted requests whose threads have not stored the context yet. -/
  storing : List Request := []
  /-- The calls whose context was dropped at the limit. -/
  dropped : List Nat := []
  answered : List (Request × Answer) := []
  log : List (HandlerCall Nat) := []

inductive Action
  /-- A call that stores its context in the same step in which the library accepts it. -/
  | call (op : Op) (retval : LibraryResult)
  /-- The library accepts a request, and the thread is still to store the context. -/
  | accept (op : Op) (token : Int)
  | store (call : Nat)
  | answer (call : Nat) (answer : Answer)
  | delivered (token : Int)

namespace Session

def init (bufferSize : Int) : Session :=
  { imp := { client := true, bufferSize } }

def returns (w : Session) (op : Op) : Except LogicError Unit → List (Nat × Op)
  | .ok () => w.returned ++ [(w.calls, op)]
  | .error _ => w.returned

/-- A call that throws or is refused is only counted. -/
def skips (w : Session) (op : Op) (outcome : Except LogicError Unit) : Session :=
  { w with calls := w.calls + 1, returned := w.returns op outcome }

def accepts (w : Session) (r : Request) : Session :=
  { w with
    calls := w.calls + 1
    returned := w.returned ++ [(r.call, r.op)]
    accepted := w.accepted ++ [r]
    inFlight := w.inFlight ++ [r]
    storing := w.storing ++ [r] }

def stores (w : Session) (r : Request) : Session :=
  { w with
    imp := w.imp.store r.op r.token r.call
    storing := w.storing.filter (·.call ≠ r.call)
    dropped := if w.imp.drops r.op then w.dropped ++ [r.call] else w.dropped }

def answers (w : Session) (r : Request) (answer : Answer) : Session :=
  { w with
    imp := (w.imp.answer r.op.kind r.token answer).1
    inFlight := w.inFlight.filter (·.call ≠ r.call)
    answered := w.answered ++ [(r, answer)]
    log := w.log ++ (w.imp.answer r.op.kind r.token answer).2 }

def step (w : Session) : Action → Option Session
  | .call op retval =>
    let done := w.imp.perform op retval w.calls
    match w.imp.client, retval with
    | true, .accepted token =>
      some { (w.accepts ⟨w.calls, token, op⟩).stores ⟨w.calls, token, op⟩ with
        imp := done.1, returned := w.returns op done.2 }
    | _, _ => some { w.skips op done.2 with imp := done.1 }
  | .accept op token => if w.imp.client then some (w.accepts ⟨w.calls, token, op⟩) else none
  | .store call => (w.storing.find? (·.call = call)).map w.stores
  | .answer call answer => (w.inFlight.find? (·.call = call)).map (w.answers · answer)
  | .delivered token => some { w with log := w.log ++ w.imp.delivered token }

/-- The calls made so far of the completion handlers of one application call. -/
def completions (w : Session) (call : Nat) : List (HandlerCall Nat) :=
  w.log.filter fun c => c.isCompletion && c.hndl == call

/-! ### Assumptions on the library and on the schedule -/

/-- No request in flight has this token. -/
def FreshToken (w : Session) (token : Int) : Prop := ∀ r ∈ w.inFlight, r.token ≠ token

instance (w : Session) (token : Int) : Decidable (w.FreshToken token) :=
  inferInstanceAs (Decidable (∀ r ∈ w.inFlight, r.token ≠ token))

/-- Requests in flight have distinct tokens. -/
def DistinctTokens (w : Session) : Action → Prop
  | .call _ (.accepted token) => w.FreshToken token
  | .accept _ token => w.FreshToken token
  | _ => True

/-- Storing the context is atomic with acceptance. -/
def AtomicStore : Action → Prop
  | .accept .. => False
  | _ => True

/-- An answer comes only after the context of its request has been stored. -/
def AnswerAfterStore (w : Session) : Action → Prop
  | .answer call _ => ∀ r ∈ w.storing, r.call ≠ call
  | _ => True

/-- The limit for publish contexts is not reached when a context is stored. -/
def BelowLimit (w : Session) : Action → Prop
  | .call op _ => w.imp.drops op = false
  | .store call => ∀ r ∈ w.storing, r.call = call → w.imp.drops r.op = false
  | _ => True

instance (w : Session) : ∀ a, Decidable (w.DistinctTokens a)
  | .call _ (.accepted token) => inferInstanceAs (Decidable (w.FreshToken token))
  | .accept _ token => inferInstanceAs (Decidable (w.FreshToken token))
  | .call _ (.refused _) | .store _ | .answer _ _ | .delivered _ => .isTrue trivial

instance : ∀ a, Decidable (AtomicStore a)
  | .accept .. => .isFalse id
  | .call _ _ | .store _ | .answer _ _ | .delivered _ => .isTrue trivial

instance (w : Session) : ∀ a, Decidable (w.AnswerAfterStore a)
  | .answer call _ => inferInstanceAs (Decidable (∀ r ∈ w.storing, r.call ≠ call))
  | .call _ _ | .accept _ _ | .store _ | .delivered _ => .isTrue trivial

instance (w : Session) : ∀ a, Decidable (w.BelowLimit a)
  | .call op _ => inferInstanceAs (Decidable (w.imp.drops op = false))
  | .store call =>
    inferInstanceAs (Decidable (∀ r ∈ w.storing, r.call = call → w.imp.drops r.op = false))
  | .accept _ _ | .answer _ _ | .delivered _ => .isTrue trivial

/-- Runs in which contexts are stored as requests are accepted, under tokens not in flight. -/
def AtomicRun (w : Session) (a : Action) : Prop := w.DistinctTokens a ∧ AtomicStore a

instance (w : Session) (a : Action) : Decidable (w.AtomicRun a) :=
  inferInstanceAs (Decidable (w.DistinctTokens a ∧ AtomicStore a))

/-! ### Steps -/

/-- An atomic call that is accepted is an acceptance followed by the critical section. -/
theorem step_call_accepted {w : Session} (hclient : w.imp.client = true) (op : Op) (token : Int) :
    w.step (.call op (.accepted token))
      = some ((w.accepts ⟨w.calls, token, op⟩).stores ⟨w.calls, token, op⟩) := by
  simp [step, hclient, Imp.perform_accepted hclient, stores, accepts, returns]

theorem step_call_refused (w : Session) (op : Op) (code : Int) :
    w.step (.call op (.refused code))
      = some (w.skips op (w.imp.perform op (.refused code) w.calls).2) := by
  cases hclient : w.imp.client <;> simp [step, hclient, Imp.perform_refused, skips]

theorem step_call_of_not_client {w : Session} (hclient : w.imp.client = false) (op : Op)
    (retval : LibraryResult) :
    w.step (.call op retval) = some (w.skips op (.error .notCreated)) := by
  simp [step, hclient, Imp.perform_of_not_client hclient, skips]

theorem step_store {w w' : Session} {call : Nat} (h : w.step (.store call) = some w') :
    ∃ r ∈ w.storing, r.call = call ∧ w' = w.stores r := by
  obtain ⟨r, hfind, rfl⟩ := Option.map_eq_some_iff.mp h
  exact ⟨r, List.mem_of_find?_eq_some hfind, by simpa using List.find?_some hfind, rfl⟩

theorem step_answer {w w' : Session} {call : Nat} {answer : Answer}
    (h : w.step (.answer call answer) = some w') :
    ∃ r ∈ w.inFlight, r.call = call ∧ w' = w.answers r answer := by
  obtain ⟨r, hfind, rfl⟩ := Option.map_eq_some_iff.mp h
  exact ⟨r, List.mem_of_find?_eq_some hfind, by simpa using List.find?_some hfind, rfl⟩

/-- All that a step can do. -/
theorem step_cases {w w' : Session} {a : Action} (h : w.step a = some w') :
    (∃ op retval outcome, a = .call op retval ∧ w' = w.skips op outcome) ∨
    (∃ op token, a = .call op (.accepted token) ∧
      w' = (w.accepts ⟨w.calls, token, op⟩).stores ⟨w.calls, token, op⟩) ∨
    (∃ op token, a = .accept op token ∧ w' = w.accepts ⟨w.calls, token, op⟩) ∨
    (∃ r ∈ w.storing, a = .store r.call ∧ w' = w.stores r) ∨
    (∃ r ∈ w.inFlight, ∃ answer, a = .answer r.call answer ∧ w' = w.answers r answer) ∨
    ∃ token, a = .delivered token ∧ w' = { w with log := w.log ++ w.imp.delivered token } := by
  cases a with
  | call op retval =>
      cases hclient : w.imp.client with
      | false =>
          rw [step_call_of_not_client hclient] at h
          exact Or.inl ⟨op, retval, _, rfl, (Option.some.inj h).symm⟩
      | true =>
          cases retval with
          | refused code =>
              rw [step_call_refused] at h
              exact Or.inl ⟨op, _, _, rfl, (Option.some.inj h).symm⟩
          | accepted token =>
              rw [step_call_accepted hclient] at h
              exact Or.inr (Or.inl ⟨op, token, rfl, (Option.some.inj h).symm⟩)
  | accept op token =>
      rw [step] at h
      split_ifs at h
      exact Or.inr (Or.inr (Or.inl ⟨op, token, rfl, (Option.some.inj h).symm⟩))
  | store call =>
      obtain ⟨r, hr, rfl, rfl⟩ := step_store h
      exact Or.inr (Or.inr (Or.inr (Or.inl ⟨r, hr, rfl, rfl⟩)))
  | answer call answer =>
      obtain ⟨r, hr, rfl, rfl⟩ := step_answer h
      exact Or.inr (Or.inr (Or.inr (Or.inr (Or.inl ⟨r, hr, answer, rfl, rfl⟩))))
  | delivered token =>
      rw [step] at h
      exact Or.inr (Or.inr (Or.inr (Or.inr (Or.inr ⟨token, rfl, (Option.some.inj h).symm⟩))))

end Session

end Shapeware.Mqtt
