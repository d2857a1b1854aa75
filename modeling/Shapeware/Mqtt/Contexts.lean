import Shapeware.Mqtt.Imp
import Shapeware.Library.Correlation

/-!
# The three context maps as one table

Requests of the three kinds keep their contexts in three maps of three types, but all of them are
stored, answered and erased in the same way. `Imp.contextAt` reads the three maps as one table whose
keys are a kind and a token; storing a context and answering a request are then updates of that
table at one key.
-/

namespace Shapeware.Mqtt

inductive Kind
  | subscribe
  | unsubscribe
  | publish
deriving DecidableEq

/-- What a call asks the library for. -/
inductive Op
  | subscribe (topic : StdString) (qos : Int)
  | unsubscribe (topic : StdString)
  | publish (topic : StdString) (qos : Int) (msg : List UInt8)
deriving DecidableEq

/-- How the library answers an accepted request: with `onSuccess` and the granted QoS, or with
`onFailure`. -/
inductive Answer
  | success (qos : Int)
  | failure
deriving DecidableEq

inductive Context (H : Type)
  | subscribe (sc : SubscribeContext H)
  | unsubscribe (uc : UnsubscribeContext H)
  | publish (pc : PublishContext H)
deriving DecidableEq

variable {H : Type}

def Op.kind : Op → Kind
  | .subscribe .. => .subscribe
  | .unsubscribe .. => .unsubscribe
  | .publish .. => .publish

/-- The context of a request whose handlers are known by the name `hndl`. -/
def Op.context (op : Op) (hndl : H) : Context H :=
  match op with
  | .subscribe topic qos => .subscribe ⟨topic, qos, hndl⟩
  | .unsubscribe topic => .unsubscribe ⟨topic, hndl⟩
  | .publish topic qos msg => .publish ⟨topic, qos, msg, hndl, hndl⟩

def Answer.result : Answer → Bool
  | .success _ => true
  | .failure => false

/-- The handler call by which an answer completes a request. -/
def Context.complete : Context H → Answer → HandlerCall H
  | .subscribe sc, .success qos => sc.onSubscribe qos true
  | .subscribe sc, .failure => sc.onSubscribe 0 false
  | .unsubscribe uc, answer => uc.onUnsubscribe answer.result
  | .publish pc, answer => pc.onSend pc.qos answer.result

namespace HandlerCall

def hndl : HandlerCall H → H
  | .onSubscribe hndl .. => hndl
  | .onUnsubscribe hndl .. => hndl
  | .onSend hndl .. => hndl
  | .onDelivery hndl .. => hndl

/-- A delivery report completes nothing: the other three calls report the outcome of a request. -/
def isCompletion : HandlerCall H → Bool
  | .onDelivery .. => false
  | _ => true

end HandlerCall

@[simp]
theorem isCompletion_complete (c : Context H) (answer : Answer) :
    (c.complete answer).isCompletion = true := by
  cases c <;> cases answer <;> rfl

@[simp]
theorem hndl_complete_context (op : Op) (hndl : H) (answer : Answer) :
    ((op.context hndl).complete answer).hndl = hndl := by
  cases op <;> cases answer <;> rfl

namespace Imp

/-! ### Calls by kind -/

/-- A whole call: the library call and, if the library accepts, the critical section. -/
def perform (s : Imp H) (op : Op) (retval : LibraryResult) (hndl : H) :
    Imp H × Except LogicError Unit :=
  match op with
  | .subscribe topic qos => s.subscribe retval topic qos hndl hndl
  | .unsubscribe topic => s.unsubscribe retval topic hndl
  | .publish topic qos msg => s.publish retval topic qos msg hndl hndl

/-- The critical section of a call alone. -/
def store (s : Imp H) (op : Op) (token : Int) (hndl : H) : Imp H :=
  match op with
  | .subscribe topic qos => s.storeSubscribe token topic qos hndl hndl
  | .unsubscribe topic => s.storeUnsubscribe token topic hndl
  | .publish topic qos msg => s.storePublish token topic qos msg hndl hndl

/-- Whether the critical section drops the context. -/
def drops (s : Imp H) : Op → Bool
  | .publish .. => s.contextLimitReached
  | _ => false

/-- The library invokes the callback that was put into the options of the request, with response
data that carry its token. -/
def answer (s : Imp H) (kind : Kind) (token : Int) : Answer → Imp H × List (HandlerCall H)
  | .success qos => match kind with
    | .subscribe => s.onSubscribe (some ⟨token, qos⟩)
    | .unsubscribe => s.onUnsubscribe (some ⟨token, qos⟩)
    | .publish => s.onSend (some ⟨token, qos⟩)
  | .failure => match kind with
    | .subscribe => s.onSubscribeFailure (some ⟨token⟩)
    | .unsubscribe => s.onUnsubscribeFailure (some ⟨token⟩)
    | .publish => s.onSendFailure (some ⟨token⟩)

theorem perform_accepted {s : Imp H} (hclient : s.client = true) (op : Op) (token : Int)
    (hndl : H) : s.perform op (.accepted token) hndl = (s.store op token hndl, .ok ()) := by
  cases op <;> simp [perform, store, subscribe, unsubscribe, publish, hclient]

theorem perform_refused (s : Imp H) (op : Op) (code : Int) (hndl : H) :
    (s.perform op (.refused code) hndl).1 = s := by
  cases op <;> simp only [perform, subscribe, unsubscribe, publish] <;> split_ifs <;> rfl

theorem perform_error {s : Imp H} {op : Op} {retval : LibraryResult} {hndl : H} {e : LogicError}
    (h : (s.perform op retval hndl).2 = .error e) : (s.perform op retval hndl).1 = s := by
  cases op with
  | subscribe topic qos => exact subscribe_error h
  | unsubscribe topic => exact unsubscribe_error h
  | publish topic qos msg => exact publish_error h

theorem perform_of_not_client {s : Imp H} (hclient : s.client = false) (op : Op)
    (retval : LibraryResult) (hndl : H) :
    s.perform op retval hndl = (s, .error .notCreated) := by
  cases op <;> simp [perform, subscribe, unsubscribe, publish, hclient]

/-! ### The table -/

def contextAt (s : Imp H) : Kind × Int → Option (Context H)
  | (.subscribe, token) => s.subscribeContextMap[token]?.map .subscribe
  | (.unsubscribe, token) => s.unsubscribeContextMap[token]?.map .unsubscribe
  | (.publish, token) => s.publishContextMap[token]?.map .publish

theorem mem_subscribeContextMap {s : Imp H} {token : Int} :
    token ∈ s.subscribeContextMap ↔ (s.contextAt (.subscribe, token)).isSome := by
  simp [contextAt]

theorem mem_unsubscribeContextMap {s : Imp H} {token : Int} :
    token ∈ s.unsubscribeContextMap ↔ (s.contextAt (.unsubscribe, token)).isSome := by
  simp [contextAt]

theorem mem_publishContextMap {s : Imp H} {token : Int} :
    token ∈ s.publishContextMap ↔ (s.contextAt (.publish, token)).isSome := by
  simp [contextAt]

theorem contextAt_publish {s : Imp H} {token : Int} {pc : PublishContext H} :
    s.contextAt (.publish, token) = some (.publish pc) ↔ s.publishContextMap[token]? = some pc := by
  simp [contextAt]

theorem contextAt_store (s : Imp H) (op : Op) (token : Int) (hndl : H) :
    (s.store op token hndl).contextAt = if s.drops op then s.contextAt else
      Function.update s.contextAt (op.kind, token) (some (op.context hndl)) := by
  funext ⟨kind, t⟩
  cases op with
  | publish topic qos msg =>
      by_cases hlimit : s.contextLimitReached = true
      · simp [store, storePublish, drops, hlimit]
      · cases kind <;> by_cases ht : t = token <;>
          simp [store, storePublish, drops, hlimit, contextAt, Op.kind, Op.context,
            Function.update_apply, stdMap_getElem?_insert, ht]
  | _ =>
      cases kind <;> by_cases ht : t = token <;>
        simp [store, storeSubscribe, storeUnsubscribe, drops, contextAt, Op.kind, Op.context,
          Function.update_apply, stdMap_getElem?_insert, ht]

end Imp

theorem takeContext_fst_getElem? {C : Type} (contextMap : StdMap Int C) (token t : Int)
    (call : C → HandlerCall H) :
    (Imp.takeContext contextMap token call).1[t]? = if t = token then none else contextMap[t]? := by
  unfold Imp.takeContext
  cases hfound : contextMap[token]? with
  | some context =>
      exact stdMap_getElem?_erase contextMap token t
  | none =>
      by_cases ht : t = token <;> simp [ht, hfound]

theorem takeContext_snd {C : Type} (contextMap : StdMap Int C) (token : Int)
    (call : C → HandlerCall H) :
    (Imp.takeContext contextMap token call).2 = (contextMap[token]?.map call).toList := by
  unfold Imp.takeContext
  cases contextMap[token]? <;> rfl

namespace Imp

theorem contextAt_answer (s : Imp H) (kind : Kind) (token : Int) (answer : Answer) :
    (s.answer kind token answer).1.contextAt
      = Function.update s.contextAt (kind, token) none := by
  funext ⟨kind', t⟩
  cases answer <;> cases kind <;> cases kind' <;> by_cases ht : t = token <;>
    simp [Imp.answer, onSubscribe, onUnsubscribe, onSend, onSubscribeFailure,
      onUnsubscribeFailure, onSendFailure, contextAt, takeContext_fst_getElem?, ht]

/-- Answering calls the handler of the context under the token, if there is one. -/
theorem answer_snd (s : Imp H) (kind : Kind) (token : Int) (answer : Answer) :
    (s.answer kind token answer).2
      = ((s.contextAt (kind, token)).map fun c => c.complete answer).toList := by
  cases answer <;> cases kind <;>
    simp only [Imp.answer, onSubscribe, onUnsubscribe, onSend, onSubscribeFailure,
      onUnsubscribeFailure, onSendFailure, contextAt, takeContext_snd, Option.map_some,
      Option.getD_some, Option.map_map] <;> rfl

@[simp]
theorem onMessageHndlMap_answer (s : Imp H) (kind : Kind) (token : Int) (answer : Answer) :
    (s.answer kind token answer).1.onMessageHndlMap = s.onMessageHndlMap := by
  cases answer <;> cases kind <;> rfl

@[simp]
theorem client_answer (s : Imp H) (kind : Kind) (token : Int) (answer : Answer) :
    (s.answer kind token answer).1.client = s.client := by
  cases answer <;> cases kind <;> rfl

@[simp]
theorem client_store (s : Imp H) (op : Op) (token : Int) (hndl : H) :
    (s.store op token hndl).client = s.client := by
  cases op with
  | publish topic qos msg => simp only [store, storePublish]; split_ifs <;> rfl
  | _ => rfl

theorem delivered_eq (s : Imp H) (token : Int) :
    s.delivered token
      = (s.publishContextMap[token]?.map fun pc => pc.onDelivery pc.qos true).toList := by
  unfold delivered
  cases s.publishContextMap[token]? <;> rfl

end Imp

end Shapeware.Mqtt
