import Shapeware.Library.Runs

/-!
# Fleet provisioning

`worker` connects to the broker with the bootstrap certificate, and `makeProvisioning` asks for an
official one and registers it, in requests that are answered on topics of their own. The client
library calls all handlers on one thread of its own, one after another, and `MqttService` holds
`m_subscriptionDataMutex` while it handles a message or the answer to a subscription. Runs of
`worker` follow each other, and the process can be stopped and started again at any moment; only the
official files survive that.

A message is known by the run that subscribed to it and by its number, and a value or a file by the
message that it was taken from. A promise that its run has left behind is treated as if it still
existed, and one of an earlier run as if nobody waited for it.
-/

namespace Shapeware.AwsFleetProv

inductive Topic
  | keysAccepted
  | keysRejected
  | registerAccepted
  | registerRejected
deriving DecidableEq

/-- The two requests, CreateKeysAndCertificate and RegisterThing. -/
inductive Request
  | keys
  | register
deriving DecidableEq

/-- The promises of `makeProvisioning`, such as `keysAcceptedSubscribedPromise`,
`keysPublishSendPromise` and `keysPublishRespondedPromise`. -/
inductive Promise
  | subscribed (t : Topic)
  | sent (r : Request)
  | responded (r : Request)
deriving DecidableEq

inductive OfficialFile
  | certificates
  | certificatePem
  | privatePem
  | provision
deriving DecidableEq

/-- A message: the run that subscribed to it, and its number. -/
structure Source where
  run : Nat
  message : Nat
deriving DecidableEq

/-- A file is empty once it was opened for writing, until it is closed. -/
structure File where
  source : Source
  written : Bool
deriving DecidableEq

/-! ### The code as lists of operations -/

/-- An operation of `makeProvisioning`. The calls of `MqttService` have two parts: the request to the
library, which can fail, and the update of the handlers under `m_subscriptionDataMutex`. -/
inductive Op
  | subscribe (t : Topic)
  | storeHandler (t : Topic)
  /-- `get_future().get()` -/
  | get (p : Promise)
  | check (p : Promise)
  /-- `m_token` is read for the RegisterThing request, and later `m_certificateId`. -/
  | readToken
  | readCertificateId
  | publish (r : Request)
  | unsubscribe (t : Topic)
  | eraseHandler (t : Topic)
deriving DecidableEq

def makeProvisioning : List Op :=
  [.subscribe .keysAccepted, .storeHandler .keysAccepted,
    .subscribe .keysRejected, .storeHandler .keysRejected,
    .get (.subscribed .keysAccepted), .check (.subscribed .keysAccepted),
    .get (.subscribed .keysRejected), .check (.subscribed .keysRejected),
    .publish .keys,
    .get (.sent .keys), .check (.sent .keys),
    .get (.responded .keys), .check (.responded .keys),
    .subscribe .registerAccepted, .storeHandler .registerAccepted,
    .subscribe .registerRejected, .storeHandler .registerRejected,
    .get (.subscribed .registerAccepted), .get (.subscribed .registerRejected),
    .check (.subscribed .registerAccepted), .check (.subscribed .registerRejected),
    .readToken, .readCertificateId, .publish .register,
    .get (.sent .register), .check (.sent .register),
    .get (.responded .register), .check (.responded .register),
    .unsubscribe .registerRejected, .eraseHandler .registerRejected,
    .unsubscribe .registerAccepted, .eraseHandler .registerAccepted,
    .unsubscribe .keysRejected, .eraseHandler .keysRejected,
    .unsubscribe .keysAccepted, .eraseHandler .keysAccepted]

/-- What the catch block of `makeProvisioning` unsubscribes. -/
def cancelProvisioning : List Topic :=
  [.keysAccepted, .keysRejected, .registerAccepted, .registerRejected]

/-- An operation of an `onMessage` handler. All but the last two can throw. -/
inductive MessageOp
  | parse
  | setCertificateId
  | setToken
  | open (f : OfficialFile)
  | exploreProvisionFile
  | close (f : OfficialFile)
  | setValue (r : Request) (accepted : Bool)
deriving DecidableEq

def MessageOp.canThrow : MessageOp → Bool
  | .close _ | .setValue .. => false
  | _ => true

/-- The four `onMessage` handlers. -/
def onMessage : Topic → List MessageOp
  | .keysAccepted =>
    [.parse, .setCertificateId, .parse, .parse, .setToken,
      .open .certificates, .open .certificatePem, .open .privatePem,
      .close .certificates, .close .certificatePem, .close .privatePem, .setValue .keys true]
  | .keysRejected => [.parse, .setValue .keys false]
  | .registerAccepted =>
    [.open .provision, .close .provision, .exploreProvisionFile, .setValue .register true]
  | .registerRejected => [.parse, .setValue .register false]

/-! ### The two threads -/

/-- A wait on `m_workCond` for `connected`, with a timeout. -/
inductive TimedWait
  | test
  | block
  | blocked
  | relock
  | timedOut
deriving DecidableEq

/-- Where `worker` is. -/
inductive WorkerPc
  | lockWork
  | testCertFile
  | testKeyFile
  /-- The three calls of the library in `IMqttService::create`. -/
  | createClient
  | setConnected
  | setCallbacks
  | connect
  | wait (w : TimedWait)
  | provisioning (rest : List Op)
  /-- Calls `unsubscribe` for the topics that are left, then throws again. -/
  | cancelling (rest : List Topic)
  | cancelErases (t : Topic) (rest : List Topic)
  /-- Sets `m_provisioningData` and calls `m_onProvisioned` or `m_onError`. -/
  | report (connected : Bool)
  | inHandler (connected : Bool)
  | disconnect
  | destroy
  /-- The catch block of `worker`, and `m_onError` called from there. -/
  | caught
  | inOnError
  | returned
  | escaped
deriving DecidableEq

namespace WorkerPc

/-- `lck` owns `m_workMtx`. -/
def holdsWorkMtx : WorkerPc → Bool
  | .wait .blocked | .wait .relock | .wait .timedOut => false
  | .lockWork | .caught | .inOnError | .returned | .escaped => false
  | _ => true

/-- `lckdata` owns `m_provisioningDataMtx`. -/
def holdsProvisioningDataMtx : WorkerPc → Bool
  | .inHandler _ => true
  | _ => false

def inApplicationHandler : WorkerPc → Bool
  | .inHandler _ | .inOnError => true
  | _ => false

def hasEnded : WorkerPc → Bool
  | .returned | .escaped => true
  | _ => false

end WorkerPc

/-- Where the thread of the client library is. -/
inductive Callback
  | idle
  /-- In the handler `onConnect` of a run, before it locks `m_workMtx`. -/
  | onConnect (run : Nat)
  | onMessage (source : Source) (rest : List MessageOp)
deriving DecidableEq

def Callback.inMessage : Callback → Bool
  | .onMessage .. => true
  | _ => false

/-- The handler has opened the file and is still to close it. -/
def Callback.leavesOpen : Callback → OfficialFile → Bool
  | .onMessage _ rest, f => .close f ∈ rest ∧ .open f ∉ rest
  | .idle, _ | .onConnect _, _ => false

/-- The messages from which the token and the certificate id of the RegisterThing request are. -/
structure RegisterDoc where
  token : Option Source := none
  certificateId : Option Source := none
deriving DecidableEq

inductive Event
  /-- A promise is given a value, or was given one before. -/
  | result (p : Promise) (value : Bool)
  | published (r : Request)
  | created
  | threw
  | onProvisioned
  | onError
deriving DecidableEq

structure Imp where
  /-- The number of the run of `worker`; what follows is about this run. -/
  run : Nat
  worker : WorkerPc
  connected : Bool
  promises : Promise → Option Bool
  registerDoc : RegisterDoc
  trace : List Event
  callback : Callback
  /-- `m_client`, by the run that created it. -/
  client : Option Nat
  onConnectHandler : Option Nat
  /-- `m_onMessageHndlMap`, by the run that has subscribed. -/
  handlers : Topic → Option Nat
  /-- The requests that the library has not answered. -/
  subscribing : Topic → Option Nat
  sending : Request → Option Nat
  messages : Nat
  token : Option Source
  certificateId : Option Source
  isProvisioned : Bool
  onProvisioned : Bool
  onError : Bool
  files : OfficialFile → Option File
  /-- An exception has left the handler that opened the file last before it was closed, or the process
  was stopped there. -/
  torn : OfficialFile → Bool
  /-- The last run that has opened an official file, and the runs that have called
  `m_onProvisioned`. -/
  lastOpened : Option Nat
  provisionedRuns : List Nat

inductive Outcome
  | ok
  | threw
deriving DecidableEq

inductive Action
  /-- Stores the handlers, and joins a worker that runs. -/
  | launchProvisioning (onProvisioned onError : Bool)
  | startWorker
  | unregisterProvisioningHandlers
  | worker (outcome : Outcome)
  /-- The wait for the connection ends without a notification, or after its time. -/
  | wake
  | timeout
  /-- The library thread calls `connected`, answers a request, or has a message. -/
  | connected
  | subscribed (t : Topic) (result : Bool)
  | sent (r : Request) (result : Bool)
  | message (t : Topic)
  /-- The library thread goes on in its handler. -/
  | callback (outcome : Outcome)
  /-- The process ends. -/
  | stop
  | activate
  | deactivate
deriving DecidableEq

namespace Imp

/-- A device on which nothing was done. -/
def init : Imp :=
  { run := 0, worker := .returned, connected := false, promises := fun _ => none, registerDoc := {}
    trace := [], callback := .idle, client := none, onConnectHandler := none
    handlers := fun _ => none, subscribing := fun _ => none, sending := fun _ => none, messages := 0
    token := none, certificateId := none, isProvisioned := false, onProvisioned := false
    onError := false, files := fun _ => none, torn := fun _ => false, lastOpened := none
    provisionedRuns := [] }

def log (s : Imp) (e : Event) : Imp := { s with trace := s.trace ++ [e] }

def goto (s : Imp) (pc : WorkerPc) : Imp := { s with worker := pc }

/-- `set_value`, which throws when the promise has a value. -/
def setValue (s : Imp) (p : Promise) (value : Bool) : Imp :=
  { s with
    promises := if s.promises p = none then Function.update s.promises p (some value) else s.promises
    trace := s.trace ++ [.result p value] }

/-- An exception leaves `worker`'s own code, or that of `makeProvisioning`. -/
def throws (s : Imp) (pc : WorkerPc) : Imp := (s.log .threw).goto pc

/-- A step that can throw. -/
def orThrows (s : Imp) (outcome : Outcome) (handler : WorkerPc) (done : Imp) : Imp :=
  match outcome with
  | .ok => done
  | .threw => s.throws handler

/-! ### `worker` -/

/-- `m_onMessageHndlMap.erase`, which waits for a message that is being handled. -/
def erases (s : Imp) (t : Topic) (goOn : WorkerPc) : Option Imp :=
  if s.callback.inMessage then none
  else some { s.goto goOn with handlers := Function.update s.handlers t none }

/-- One operation of `makeProvisioning`, before `rest`. -/
def performs (s : Imp) (outcome : Outcome) (rest : List Op) : Op → Option Imp
  | .subscribe _ | .unsubscribe _ =>
    some (s.orThrows outcome (.cancelling cancelProvisioning) (s.goto (.provisioning rest)))
  | .storeHandler t =>
    if s.callback.inMessage then none
    else some
      { s.goto (.provisioning rest) with
        handlers := Function.update s.handlers t (some s.run)
        subscribing := Function.update s.subscribing t (some s.run) }
  | .get p => if s.promises p = none then none else some (s.goto (.provisioning rest))
  | .check p =>
    some <| if s.promises p = some true then s.goto (.provisioning rest)
      else s.throws (.cancelling cancelProvisioning)
  | .readToken =>
    some { s.goto (.provisioning rest) with
      registerDoc := { s.registerDoc with token := s.token } }
  | .readCertificateId =>
    some { s.goto (.provisioning rest) with
      registerDoc := { s.registerDoc with certificateId := s.certificateId } }
  | .publish r =>
    -- a request that the library refuses is only traced
    some { (s.log (.published r)).goto (.provisioning rest) with
      sending := if outcome = .ok then Function.update s.sending r (some s.run) else s.sending }
  | .eraseHandler t => s.erases t (.provisioning rest)

/-- Calls `m_onProvisioned` or `m_onError`, if it is registered. -/
def reports (s : Imp) (connected : Bool) : Imp :=
  let s := { s with isProvisioned := connected }
  if connected then
    if s.onProvisioned then
      { (s.log .onProvisioned).goto (.inHandler true) with
        provisionedRuns := s.run :: s.provisionedRuns }
    else s.goto .disconnect
  else if s.onError then (s.log .onError).goto (.inHandler false)
  else s.goto .disconnect

/-- One step of `worker`. -/
def works (s : Imp) (outcome : Outcome) : Option Imp :=
  match s.worker with
  | .lockWork => some (s.goto .testCertFile)
  | .testCertFile => some (s.orThrows outcome .caught (s.goto .testKeyFile))
  | .testKeyFile => some (s.orThrows outcome .caught (s.goto .createClient))
  | .createClient =>
    -- a client that is there makes it throw
    some <| if s.client = none then
      s.orThrows outcome .caught { (s.log .created).goto .setConnected with client := some s.run }
    else s.throws .caught
  | .setConnected => some (s.orThrows outcome .caught (s.goto .setCallbacks))
  | .setCallbacks => some (s.orThrows outcome .caught (s.goto .connect))
  | .connect =>
    let s := { s with onConnectHandler := some s.run }
    some (s.orThrows outcome .caught (s.goto (.wait .test)))
  | .wait .test =>
    some (s.goto (if s.connected then .provisioning makeProvisioning else .wait .block))
  | .wait .block => some (s.goto (.wait .blocked))
  | .wait .blocked => none
  | .wait .relock => some (s.goto (.wait .test))
  | .wait .timedOut =>
    some (s.goto (if s.connected then .provisioning makeProvisioning else .report false))
  | .provisioning [] => some (s.goto (.report true))
  | .provisioning (op :: rest) => s.performs outcome rest op
  | .cancelling [] => some (s.throws .caught)
  | .cancelling (t :: rest) => some (s.orThrows outcome .caught (s.goto (.cancelErases t rest)))
  | .cancelErases t rest => s.erases t (.cancelling rest)
  | .report connected => some (s.reports connected)
  | .inHandler _ => some (s.orThrows outcome .caught (s.goto .disconnect))
  | .disconnect => some (s.goto .destroy)
  | .destroy => some { s.goto .returned with client := none }
  | .caught => some (if s.onError then (s.log .onError).goto .inOnError else s.goto .returned)
  | .inOnError => some (s.orThrows outcome .escaped (s.goto .returned))
  | .returned | .escaped => none

def wakes (s : Imp) (w : TimedWait) : Imp :=
  match s.worker with
  | .wait .blocked => s.goto (.wait w)
  | _ => s

/-! ### The thread of the client library -/

/-- The library can call a handler. -/
def CanCall (s : Imp) : Prop := s.client ≠ none ∧ s.callback = .idle

instance (s : Imp) : Decidable s.CanCall := inferInstanceAs (Decidable (_ ∧ _))

/-- Of an earlier run nobody waits for the promise. -/
def answers (s : Imp) (run : Nat) (p : Promise) (value : Bool) : Imp :=
  if run = s.run then s.setValue p value else s

def opens (s : Imp) (source : Source) (f : OfficialFile) : Imp :=
  { s with
    files := Function.update s.files f (some ⟨source, false⟩)
    torn := Function.update s.torn f false
    lastOpened := some source.run }

def closes (s : Imp) (source : Source) (f : OfficialFile) : Imp :=
  { s with files := Function.update s.files f (some ⟨source, true⟩) }

/-- One operation of an `onMessage` handler that does not throw. -/
def handles (s : Imp) (source : Source) : MessageOp → Imp
  | .parse | .exploreProvisionFile => s
  | .setCertificateId => { s with certificateId := some source }
  | .setToken => { s with token := some source }
  | .open f => s.opens source f
  | .close f => s.closes source f
  | .setValue r accepted => s.answers source.run (.responded r) accepted

/-- The files that are torn once the handler is left where it is. -/
def tornHere (s : Imp) (f : OfficialFile) : Bool := s.torn f || s.callback.leavesOpen f

def callsBack (s : Imp) (outcome : Outcome) : Option Imp :=
  match s.callback with
  | .idle => none
  | .onConnect run =>
    if s.worker.holdsWorkMtx then none
    else some { (if run = s.run then { s.wakes .relock with connected := true } else s) with
      callback := .idle }
  | .onMessage _ [] => some { s with callback := .idle }
  | .onMessage source (op :: rest) =>
    match outcome with
    | .ok => some { s.handles source op with callback := .onMessage source rest }
    | .threw =>
      if op.canThrow then some { s with torn := s.tornHere, callback := .idle } else none

/-! ### The component -/

def activates (s : Imp) : Imp :=
  { s with isProvisioned :=
      (s.files .certificates).isSome && (s.files .certificatePem).isSome &&
        (s.files .privatePem).isSome && (s.files .provision).isSome }

def startsWorker (s : Imp) : Imp :=
  { s with
    run := s.run + 1, worker := .lockWork, connected := false, promises := fun _ => none
    registerDoc := {}, trace := [] }

def step (s : Imp) : Action → Option Imp
  | .launchProvisioning onProvisioned onError => some { s with onProvisioned, onError }
  | .startWorker => if s.worker.hasEnded then some s.startsWorker else none
  | .unregisterProvisioningHandlers => some { s with onProvisioned := false, onError := false }
  | .worker outcome => s.works outcome
  | .wake => some (s.wakes .relock)
  | .timeout => some (s.wakes .timedOut)
  | .connected =>
    if s.CanCall then
      s.onConnectHandler.map fun run => { s with callback := .onConnect run }
    else none
  | .subscribed t result =>
    if s.CanCall then
      (s.subscribing t).map fun run =>
        { s with subscribing := Function.update s.subscribing t none }.answers run
          (.subscribed t) result
    else none
  | .sent r result =>
    if s.CanCall then
      (s.sending r).map fun run =>
        { s with sending := Function.update s.sending r none }.answers run (.sent r) result
    else none
  | .message t =>
    if s.CanCall then
      (s.handlers t).map fun run =>
        { s with
          callback := .onMessage ⟨run, s.messages⟩ (AwsFleetProv.onMessage t)
          messages := s.messages + 1 }
    else none
  | .callback outcome => s.callsBack outcome
  | .stop =>
    some { init with
      run := s.run, messages := s.messages, files := s.files, torn := s.tornHere
      lastOpened := s.lastOpened, provisionedRuns := s.provisionedRuns }
  | .activate => if s.worker.hasEnded then some s.activates else none
  | .deactivate => some { s with onConnectHandler := none }

end Imp

/-! ### A run in which all goes well -/

namespace Action

def works (n : Nat) : List Action := List.replicate n (.worker .ok)

def goesOn (n : Nat) : List Action := List.replicate n (.callback .ok)

/-- Up to the call of `makeProvisioning`. -/
def connects : List Action :=
  List.flatten [[.startWorker], works 9, [.connected], goesOn 1, works 2]

/-- Up to the end of the CreateKeysAndCertificate workflow. -/
def createsKeys : List Action :=
  List.flatten [works 4, [.subscribed .keysAccepted true, .subscribed .keysRejected true], works 5,
    [.sent .keys true, .message .keysAccepted], goesOn 13, works 4]

/-- Up to the RegisterThing request. -/
def asksToRegister : List Action :=
  List.flatten [works 4, [.subscribed .registerAccepted true, .subscribed .registerRejected true],
    works 7]

/-- Up to the call of `m_onProvisioned`. -/
def isRegistered : List Action :=
  List.flatten [[.sent .register true, .message .registerAccepted], goesOn 5, works 14]

end Action

end Shapeware.AwsFleetProv
