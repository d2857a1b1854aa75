import Shapeware.Cxx

/-!
# The MQTT service: its data and its operations

`MqttService::Imp` keeps, for every request the client library has accepted, a context under the
token of the request, and for every topic filter the handler of its messages. This module has the
maps, the three requests and the callbacks the library answers them with. A handler is a value of
an arbitrary type `H`: the service stores handlers and calls them, and what it calls is returned.
-/

namespace Shapeware.Mqtt

structure SubscribeContext (H : Type) where
  topic : StdString
  qos : Int
  onSubscribeHndl : H
deriving DecidableEq

structure UnsubscribeContext (H : Type) where
  topic : StdString
  onUnsubscribeHndl : H
deriving DecidableEq

structure PublishContext (H : Type) where
  topic : StdString
  qos : Int
  msg : List UInt8
  onSendHndl : H
  onDeliveryHndl : H
deriving DecidableEq

/-- A call of an application handler, with the arguments it gets. -/
inductive HandlerCall (H : Type)
  | onSubscribe (hndl : H) (topic : StdString) (qos : Int) (result : Bool)
  | onUnsubscribe (hndl : H) (topic : StdString) (result : Bool)
  | onSend (hndl : H) (topic : StdString) (qos : Int) (result : Bool)
  | onDelivery (hndl : H) (topic : StdString) (qos : Int) (result : Bool)
deriving DecidableEq

/-- What the library reports when it is asked to start a request: an error code, or the token it
has stored in the response options. -/
inductive LibraryResult
  | refused (retval : Int)
  | accepted (token : Int)
deriving DecidableEq

/-- The `std::logic_error`s of the three requests, with the values printed in their texts. -/
inductive LogicError
  | notCreated
  | subscribeFailed (retval : Int) (topic : StdString) (qos : Int)
  | unsubscribeFailed (retval : Int) (topic : StdString)
deriving DecidableEq

/-- The parts of `MQTTAsync_successData` that are read. -/
structure SuccessData where
  token : Int
  qos : Int

/-- The part of `MQTTAsync_failureData` that is read for more than a trace. -/
structure FailureData where
  token : Int

structure Imp (H : Type) where
  /-- Whether `m_client` has been created. -/
  client : Bool
  bufferSize : Int := 1024
  subscribeContextMap : StdMap Int (SubscribeContext H) := ∅
  unsubscribeContextMap : StdMap Int (UnsubscribeContext H) := ∅
  onMessageHndlMap : StdMap StdString H := ∅
  publishContextMap : StdMap Int (PublishContext H) := ∅

variable {H : Type}

def SubscribeContext.onSubscribe (sc : SubscribeContext H) (qos : Int) (result : Bool) :
    HandlerCall H :=
  .onSubscribe sc.onSubscribeHndl sc.topic qos result

def UnsubscribeContext.onUnsubscribe (sc : UnsubscribeContext H) (result : Bool) : HandlerCall H :=
  .onUnsubscribe sc.onUnsubscribeHndl sc.topic result

def PublishContext.onSend (pc : PublishContext H) (qos : Int) (result : Bool) : HandlerCall H :=
  .onSend pc.onSendHndl pc.topic qos result

def PublishContext.onDelivery (pc : PublishContext H) (qos : Int) (result : Bool) :
    HandlerCall H :=
  .onDelivery pc.onDeliveryHndl pc.topic qos result

namespace Imp

/-! ### Requests

Each request calls the library first and stores its context afterwards, in a critical section of
its own. The critical sections are separate definitions, since another thread can run between the
two. -/

/-- The critical section of `subscribe` under `m_subscriptionDataMutex`. -/
def storeSubscribe (s : Imp H) (token : Int) (topic : StdString) (qos : Int)
    (onSubscribe onMessage : H) : Imp H :=
  { s with
    subscribeContextMap := s.subscribeContextMap.insert token ⟨topic, qos, onSubscribe⟩
    onMessageHndlMap := s.onMessageHndlMap.insert topic onMessage }

def subscribe (s : Imp H) (retval : LibraryResult) (topic : StdString) (qos : Int)
    (onSubscribe onMessage : H) : Imp H × Except LogicError Unit :=
  if s.client = false then (s, .error .notCreated)
  else match retval with
    | .refused code => (s, .error (.subscribeFailed code topic qos))
    | .accepted token => (s.storeSubscribe token topic qos onSubscribe onMessage, .ok ())

/-- The critical section of `unsubscribe` under `m_subscriptionDataMutex`. -/
def storeUnsubscribe (s : Imp H) (token : Int) (topic : StdString) (onUnsubscribe : H) : Imp H :=
  { s with
    onMessageHndlMap := s.onMessageHndlMap.erase topic
    unsubscribeContextMap := s.unsubscribeContextMap.insert token ⟨topic, onUnsubscribe⟩ }

def unsubscribe (s : Imp H) (retval : LibraryResult) (topic : StdString) (onUnsubscribe : H) :
    Imp H × Except LogicError Unit :=
  if s.client = false then (s, .error .notCreated)
  else match retval with
    | .refused code => (s, .error (.unsubscribeFailed code topic))
    | .accepted token => (s.storeUnsubscribe token topic onUnsubscribe, .ok ())

/-- `m_publishContextMap.size() > m_bufferSize`, compared as `size_t`. -/
def contextLimitReached (s : Imp H) : Bool :=
  toSizeT s.bufferSize < s.publishContextMap.size

/-- The critical section of `publish` under `m_publishDataMutex`: at the limit the context is
dropped. -/
def storePublish (s : Imp H) (token : Int) (topic : StdString) (qos : Int) (msg : List UInt8)
    (onSend onDelivery : H) : Imp H :=
  if s.contextLimitReached then s
  else { s with publishContextMap :=
    s.publishContextMap.insert token ⟨topic, qos, msg, onSend, onDelivery⟩ }

/-- A message the library refuses is only traced. -/
def publish (s : Imp H) (retval : LibraryResult) (topic : StdString) (qos : Int)
    (msg : List UInt8) (onSend onDelivery : H) : Imp H × Except LogicError Unit :=
  if s.client = false then (s, .error .notCreated)
  else match retval with
    | .refused _ => (s, .ok ())
    | .accepted token => (s.storePublish token topic qos msg onSend onDelivery, .ok ())

/-! ### Answers

Every answer looks its token up, calls the handler of the context it finds and erases the entry. -/

/-- Find, call and erase: what all the answers do with their map. -/
def takeContext {C : Type} (contextMap : StdMap Int C) (token : Int) (call : C → HandlerCall H) :
    StdMap Int C × List (HandlerCall H) :=
  match contextMap[token]? with
  | some context => (contextMap.erase token, [call context])
  | none => (contextMap, [])

def onSubscribe (s : Imp H) (response : Option SuccessData) : Imp H × List (HandlerCall H) :=
  let token := (response.map (·.token)).getD 0
  let qos := (response.map (·.qos)).getD 0
  let taken := takeContext s.subscribeContextMap token (·.onSubscribe qos true)
  ({ s with subscribeContextMap := taken.1 }, taken.2)

def onSubscribeFailure (s : Imp H) (response : Option FailureData) :
    Imp H × List (HandlerCall H) :=
  let token := (response.map (·.token)).getD 0
  let taken := takeContext s.subscribeContextMap token (·.onSubscribe 0 false)
  ({ s with subscribeContextMap := taken.1 }, taken.2)

def onUnsubscribe (s : Imp H) (response : Option SuccessData) : Imp H × List (HandlerCall H) :=
  let token := (response.map (·.token)).getD 0
  let taken := takeContext s.unsubscribeContextMap token (·.onUnsubscribe true)
  ({ s with unsubscribeContextMap := taken.1 }, taken.2)

def onUnsubscribeFailure (s : Imp H) (response : Option FailureData) :
    Imp H × List (HandlerCall H) :=
  let token := (response.map (·.token)).getD 0
  let taken := takeContext s.unsubscribeContextMap token (·.onUnsubscribe false)
  ({ s with unsubscribeContextMap := taken.1 }, taken.2)

/-- Unlike its siblings, a send success without response data does nothing. -/
def onSend (s : Imp H) (response : Option SuccessData) : Imp H × List (HandlerCall H) :=
  match response with
  | none => (s, [])
  | some data =>
    let taken := takeContext s.publishContextMap data.token fun pc => pc.onSend pc.qos true
    ({ s with publishContextMap := taken.1 }, taken.2)

def onSendFailure (s : Imp H) (response : Option FailureData) : Imp H × List (HandlerCall H) :=
  let token := (response.map (·.token)).getD 0
  let taken := takeContext s.publishContextMap token fun pc => pc.onSend pc.qos false
  ({ s with publishContextMap := taken.1 }, taken.2)

/-- A delivery report leaves the context where it is. -/
def delivered (s : Imp H) (token : Int) : List (HandlerCall H) :=
  match s.publishContextMap[token]? with
  | some pc => [pc.onDelivery pc.qos true]
  | none => []

/-! ### What an exception leaves behind -/

theorem subscribe_error {s : Imp H} {retval : LibraryResult} {topic : StdString} {qos : Int}
    {onSubscribe onMessage : H} {e : LogicError}
    (h : (s.subscribe retval topic qos onSubscribe onMessage).2 = .error e) :
    (s.subscribe retval topic qos onSubscribe onMessage).1 = s := by
  unfold subscribe at h ⊢
  split_ifs with hclient
  · rfl
  · rw [if_neg hclient] at h
    cases retval with
    | refused code => rfl
    | accepted token => cases h

theorem unsubscribe_error {s : Imp H} {retval : LibraryResult} {topic : StdString}
    {onUnsubscribe : H} {e : LogicError}
    (h : (s.unsubscribe retval topic onUnsubscribe).2 = .error e) :
    (s.unsubscribe retval topic onUnsubscribe).1 = s := by
  unfold unsubscribe at h ⊢
  split_ifs with hclient
  · rfl
  · rw [if_neg hclient] at h
    cases retval with
    | refused code => rfl
    | accepted token => cases h

theorem publish_error {s : Imp H} {retval : LibraryResult} {topic : StdString} {qos : Int}
    {msg : List UInt8} {onSend onDelivery : H} {e : LogicError}
    (h : (s.publish retval topic qos msg onSend onDelivery).2 = .error e) :
    (s.publish retval topic qos msg onSend onDelivery).1 = s := by
  unfold publish at h ⊢
  split_ifs with hclient
  · rfl
  · rw [if_neg hclient] at h
    cases retval with
    | refused code => cases h
    | accepted token => cases h

end Imp

end Shapeware.Mqtt
