import Shapeware.Mqtt.Contexts
import Shapeware.Mqtt.Dispatch
import Shapeware.Library.Mutexes

/-!
# The mutexes of the MQTT service

The library calls back on threads of its own. A callback locks the mutex of the maps it reads, and
calls the handlers it finds there before it unlocks it. Any thread may make a request, also one that
is running a handler.
-/

namespace Shapeware.Mqtt

inductive Mutex
  | subscriptionData
  | publishData
deriving DecidableEq

/-- The functions of `IMqttService`, by their names. -/
inductive Method
  | create
  | destroy
  | connect
  | disconnect
  | isReady
  | subscribe
  | unsubscribe
  | publish
  | registerMessageHandler
  | unregisterMessageHandler
  | registerMessageStrHandler
  | unregisterMessageStrHandler
  | registerOnConnectHandler
  | unregisterOnConnectHandler
  | registerOnSubscribeHandler
  | unregisterOnSubscribeHandler
  | registerOnDisconnectHandler
  | unregisterOnDisconnectHandler
deriving DecidableEq

def Method.locks : Method → List Mutex
  | .subscribe | .unsubscribe => [.subscriptionData]
  | .publish => [.publishData]
  | _ => []

def Op.method : Op → Method
  | .subscribe .. => .subscribe
  | .unsubscribe .. => .unsubscribe
  | .publish .. => .publish

/-- The handlers that are called with a mutex locked. -/
inductive Handler
  | onSubscribe
  | onUnsubscribe
  | onMessage
  | onSend
  | onDelivery
deriving DecidableEq

def Handler.under : Handler → Mutex
  | .onSubscribe | .onUnsubscribe | .onMessage => .subscriptionData
  | .onSend | .onDelivery => .publishData

/-- The callbacks that lock a mutex. Without response data, `onSend` does not get as far. -/
inductive Callback
  | onSubscribe (response : Option SuccessData)
  | onSubscribeFailure (response : Option FailureData)
  | onUnsubscribe (response : Option SuccessData)
  | onUnsubscribeFailure (response : Option FailureData)
  | onSend (response : SuccessData)
  | onSendFailure (response : Option FailureData)
  | delivered (token : Int)
  | msgarrvd (topicName : List UInt8) (topicLen : Int) (payload : List UInt8)

/-- A call of a handler, with its arguments. -/
inductive Calling (H : Type)
  | context (call : HandlerCall H)
  | message (call : MessageCall H)
deriving DecidableEq

variable {T H : Type}

def HandlerCall.handler : HandlerCall H → Handler
  | .onSubscribe .. => .onSubscribe
  | .onUnsubscribe .. => .onUnsubscribe
  | .onSend .. => .onSend
  | .onDelivery .. => .onDelivery

def Calling.handler : Calling H → Handler
  | .context call => call.handler
  | .message _ => .onMessage

namespace Callback

def mutex : Callback → Mutex
  | .onSubscribe _ | .onSubscribeFailure _ | .onUnsubscribe _ | .onUnsubscribeFailure _
  | .msgarrvd .. => .subscriptionData
  | .onSend _ | .onSendFailure _ | .delivered _ => .publishData

/-- The handlers that a callback calls, or an access outside of a topic filter. -/
def calls (s : Imp H) : Callback → Except Fault (List (Calling H))
  | .onSubscribe response => .ok ((s.onSubscribe response).2.map .context)
  | .onSubscribeFailure response => .ok ((s.onSubscribeFailure response).2.map .context)
  | .onUnsubscribe response => .ok ((s.onUnsubscribe response).2.map .context)
  | .onUnsubscribeFailure response => .ok ((s.onUnsubscribeFailure response).2.map .context)
  | .onSend response => .ok ((s.onSend (some response)).2.map .context)
  | .onSendFailure response => .ok ((s.onSendFailure response).2.map .context)
  | .delivered token => .ok ((s.delivered token).map .context)
  | .msgarrvd topicName topicLen payload =>
    (s.msgarrvd topicName topicLen payload).map (·.map .message)

/-- What a callback leaves of the maps when its handlers have returned. -/
def erases (s : Imp H) : Callback → Imp H
  | .onSubscribe response => (s.onSubscribe response).1
  | .onSubscribeFailure response => (s.onSubscribeFailure response).1
  | .onUnsubscribe response => (s.onUnsubscribe response).1
  | .onUnsubscribeFailure response => (s.onUnsubscribeFailure response).1
  | .onSend response => (s.onSend (some response)).1
  | .onSendFailure response => (s.onSendFailure response).1
  | .delivered _ | .msgarrvd .. => s

end Callback

/-- A thread is in no callback, or it runs a handler for one, which calls the others after it. -/
inductive ThreadPc (H : Type)
  | idle
  | handler (cb : Callback) (running : Calling H) (others : List (Calling H))

structure Locked (T H : Type) where
  imp : Imp H
  owner : Mutex → Option T
  threads : T → ThreadPc H

inductive LockAction (T H : Type)
  /-- A request of a thread, perhaps from a handler that it is running. -/
  | request (t : T) (op : Op) (retval : LibraryResult) (hndl : H)
  | callback (t : T) (cb : Callback)
  /-- The handler that a thread is running returns. -/
  | returns (t : T)

def LockAction.thread : LockAction T H → T
  | .request t .. | .callback t _ | .returns t => t

namespace Locked

def init (imp : Imp H) : Locked T H :=
  { imp, owner := fun _ => none, threads := fun _ => .idle }

/-- A request locks its mutex once the library has accepted it. -/
def Grants (s : Locked T H) (op : Op) : LibraryResult → Prop
  | .accepted _ => s.imp.client = true → ∀ m ∈ op.method.locks, s.owner m = none
  | .refused _ => True

instance [DecidableEq T] (s : Locked T H) (op : Op) : ∀ retval, Decidable (s.Grants op retval)
  | .accepted _ => inferInstanceAs (Decidable (_ → ∀ m ∈ _, _))
  | .refused _ => .isTrue trivial

variable [DecidableEq T]

/-- A callback has locked its mutex, and calls the first handler or unlocks it again. -/
def begins (s : Locked T H) (t : T) (cb : Callback) : List (Calling H) → Locked T H
  | [] => { s with imp := cb.erases s.imp }
  | call :: others =>
    { s with
      owner := Function.update s.owner cb.mutex (some t)
      threads := Function.update s.threads t (.handler cb call others) }

def calls (s : Locked T H) (t : T) (cb : Callback) : Option (Locked T H) :=
  match s.threads t, s.owner cb.mutex, cb.calls s.imp with
  | .idle, none, .ok calls => some (s.begins t cb calls)
  | _, _, _ => none

def returns (s : Locked T H) (t : T) : Option (Locked T H) :=
  match s.threads t with
  | .idle => none
  | .handler cb _ (call :: others) =>
    some { s with threads := Function.update s.threads t (.handler cb call others) }
  | .handler cb _ [] =>
    some
      { imp := cb.erases s.imp
        owner := Function.update s.owner cb.mutex none
        threads := Function.update s.threads t .idle }

def step (s : Locked T H) : LockAction T H → Option (Locked T H)
  | .request _ op retval hndl =>
    if s.Grants op retval then some { s with imp := (s.imp.perform op retval hndl).1 } else none
  | .callback t cb => s.calls t cb
  | .returns t => s.returns t

def running (s : Locked T H) (t : T) : Option Handler :=
  match s.threads t with
  | .idle => none
  | .handler _ call _ => some call.handler

/-! ### All that a step can do -/

inductive Steps (s : Locked T H) : LockAction T H → Locked T H → Prop
  | requests {t : T} {op : Op} {retval : LibraryResult} {hndl : H} :
      Steps s (.request t op retval hndl)
        { s with imp := (s.imp.perform op retval hndl).1 }
  | callsNone {t : T} {cb : Callback} :
      Steps s (.callback t cb) { s with imp := cb.erases s.imp }
  | calls {t : T} {cb : Callback} {call : Calling H} {others : List (Calling H)}
      (hidle : s.threads t = .idle) (hfree : s.owner cb.mutex = none)
      (hcalls : cb.calls s.imp = .ok (call :: others)) :
      Steps s (.callback t cb)
        { s with
          owner := Function.update s.owner cb.mutex (some t)
          threads := Function.update s.threads t (.handler cb call others) }
  | next {t : T} {cb : Callback} {done call : Calling H} {others : List (Calling H)}
      (hpc : s.threads t = .handler cb done (call :: others)) :
      Steps s (.returns t)
        { s with threads := Function.update s.threads t (.handler cb call others) }
  | unlocks {t : T} {cb : Callback} {done : Calling H} (hpc : s.threads t = .handler cb done []) :
      Steps s (.returns t)
        { imp := cb.erases s.imp
          owner := Function.update s.owner cb.mutex none
          threads := Function.update s.threads t .idle }

variable {s s' : Locked T H} {a : LockAction T H}

theorem step_cases (h : s.step a = some s') : s.Steps a s' := by
  cases a with
  | request t op retval hndl =>
      rw [step] at h
      split_ifs at h
      cases h
      exact .requests
  | callback t cb =>
      rw [step, Locked.calls] at h
      split at h
      · rename_i calls hidle hfree hcalls
        cases h
        cases calls with
        | nil => exact .callsNone
        | cons call others => exact .calls hidle hfree hcalls
      · cases h
  | returns t =>
      rw [step, returns] at h
      split at h
      · cases h
      · rename_i cb done call others hpc
        cases h
        exact .next hpc
      · rename_i cb done hpc
        cases h
        exact .unlocks hpc

/-! ### Who holds a mutex -/

end Locked

namespace ThreadPc

/-- The mutex that a thread holds. -/
def mutex : ThreadPc H → Option Mutex
  | .idle => none
  | .handler cb _ _ => some cb.mutex

/-- Every handler is called under the mutex that is meant for it. -/
def CallsUnder : ThreadPc H → Prop
  | .idle => True
  | .handler cb call others => ∀ c ∈ call :: others, c.handler.under = cb.mutex

end ThreadPc

theorem Imp.mem_takeContext {C : Type} {contextMap : StdMap Int C} {token : Int}
    {call : C → HandlerCall H} {c : HandlerCall H} (hmem : c ∈ (takeContext contextMap token call).2) :
    ∃ context, c = call context := by
  rw [takeContext_snd] at hmem
  obtain ⟨context, -, rfl⟩ := Option.map_eq_some_iff.mp (Option.mem_toList.mp hmem)
  exact ⟨context, rfl⟩

theorem Imp.mem_delivered {s : Imp H} {token : Int} {c : HandlerCall H}
    (hmem : c ∈ s.delivered token) : ∃ pc : PublishContext H, c = pc.onDelivery pc.qos true := by
  rw [delivered] at hmem
  split at hmem
  · exact ⟨_, List.mem_singleton.mp hmem⟩
  · cases hmem

theorem Callback.under_of_calls {imp : Imp H} {cb : Callback} {calls : List (Calling H)}
    (hcalls : cb.calls imp = .ok calls) {call : Calling H} (hmem : call ∈ calls) :
    call.handler.under = cb.mutex := by
  cases cb with
  | msgarrvd topicName topicLen payload =>
      cases hmsg : imp.msgarrvd topicName topicLen payload with
      | error fault => simp [Callback.calls, hmsg, Except.map] at hcalls
      | ok messages =>
          simp only [Callback.calls, hmsg, Except.map, Except.ok.injEq] at hcalls
          subst hcalls
          obtain ⟨message, -, rfl⟩ := List.mem_map.mp hmem
          rfl
  | delivered token =>
      obtain rfl := Except.ok.inj hcalls
      obtain ⟨c, hc, rfl⟩ := List.mem_map.mp hmem
      obtain ⟨pc, rfl⟩ := Imp.mem_delivered hc
      rfl
  | onSubscribe | onSubscribeFailure | onUnsubscribe | onUnsubscribeFailure | onSend
    | onSendFailure =>
      obtain rfl := Except.ok.inj hcalls
      obtain ⟨c, hc, rfl⟩ := List.mem_map.mp hmem
      obtain ⟨context, rfl⟩ := Imp.mem_takeContext hc
      rfl

namespace Locked

variable [DecidableEq T] {s s' : Locked T H} {a : LockAction T H}

/-- The owners of the mutexes are the threads that are running handlers. -/
structure Consistent (s : Locked T H) : Prop where
  owner_iff : ∀ t m, s.owner m = some t ↔ (s.threads t).mutex = some m
  under : ∀ t, (s.threads t).CallsUnder

omit [DecidableEq T] in
theorem consistent_init (imp : Imp H) : (init imp : Locked T H).Consistent where
  owner_iff _ _ := by simp [init, ThreadPc.mutex]
  under _ := trivial

omit [DecidableEq T] in
theorem Consistent.mutex_of_idle (h : s.Consistent) {t : T} (hidle : s.threads t = .idle)
    (m : Mutex) : s.owner m ≠ some t := by
  rw [Ne, h.owner_iff, hidle]
  exact nofun

theorem consistent_step (h : s.Consistent) (hstep : s.step a = some s') : s'.Consistent := by
  cases step_cases hstep with
  | requests | callsNone => exact ⟨h.owner_iff, h.under⟩
  | @calls t cb call others hidle hfree hcalls =>
      constructor
      · intro t' m
        by_cases ht : t' = t <;> by_cases hm : m = cb.mutex
        · simp [ht, hm, ThreadPc.mutex]
        · simp [ht, hm, ThreadPc.mutex, h.mutex_of_idle hidle, Ne.symm hm]
        · simp [ht, hm, ← h.owner_iff, hfree, Ne.symm ht]
        · simp [ht, hm, h.owner_iff]
      · intro t'
        by_cases ht : t' = t
        · simp only [ht, Function.update_self]
          exact fun c hc => Callback.under_of_calls hcalls hc
        · simpa [ht] using h.under t'
  | @next t cb done call others hpc =>
      constructor
      · intro t' m
        by_cases ht : t' = t
        · simp [ht, h.owner_iff, hpc, ThreadPc.mutex]
        · simp [ht, h.owner_iff]
      · intro t'
        by_cases ht : t' = t
        · have hunder := h.under t
          rw [hpc] at hunder
          simp only [ht, Function.update_self]
          exact fun c hc => hunder c (List.mem_cons_of_mem _ hc)
        · simpa [ht] using h.under t'
  | @unlocks t cb done hpc =>
      have howner : s.owner cb.mutex = some t := by
        rw [h.owner_iff, hpc, ThreadPc.mutex]
      constructor
      · intro t' m
        by_cases ht : t' = t <;> by_cases hm : m = cb.mutex
        · simp [ht, hm, ThreadPc.mutex]
        · simp [ht, hm, h.owner_iff, hpc, ThreadPc.mutex, Ne.symm hm]
        · simp [ht, hm, ← h.owner_iff, howner, Ne.symm ht]
        · simp [ht, hm, h.owner_iff]
      · intro t'
        by_cases ht : t' = t
        · simp [ht, ThreadPc.CallsUnder]
        · simpa [ht] using h.under t'

omit [DecidableEq T] in
theorem running_eq_some {t : T} {handler : Handler} : s.running t = some handler ↔
    ∃ cb call others, s.threads t = .handler cb call others ∧ call.handler = handler := by
  cases hpc : s.threads t <;> simp [running, hpc]

/-! ### The component -/

/-- The service with what is seen of its mutexes and of its handlers. -/
def component (imp : Imp H) :
    Mutexes.Component (Locked T H) (LockAction T H) T Mutex Handler Method where
  init := init imp
  step := step
  actor a := some a.thread
  owner := owner
  running := running
  locks := Method.locks

theorem consistent_of_reaches {imp : Imp H} (h : (component imp).Reaches s) : s.Consistent :=
  h.invariant Consistent (consistent_init imp) fun _ _ _ hs _ hstep => consistent_step hs hstep

theorem callsUnder (imp : Imp H) : (component (T := T) imp).CallsUnder Handler.under where
  owner_iff s hs t handler hrunning m := by
    have h := consistent_of_reaches hs
    obtain ⟨cb, call, others, hpc, rfl⟩ := running_eq_some.mp hrunning
    have hunder := h.under t
    rw [hpc] at hunder
    rw [hunder call List.mem_cons_self]
    exact (h.owner_iff t m).trans (by simp [hpc, ThreadPc.mutex, eq_comm])
  keeps s a s' t m hs hstep hother howner := by
    have h := consistent_of_reaches hs
    replace hother : a.thread ≠ t := fun heq => hother (congrArg some heq)
    cases step_cases hstep with
    | requests | callsNone | next => exact howner
    | calls hidle hfree hcalls =>
        refine (Function.update_of_ne ?_ _ _).trans howner
        rintro rfl
        exact absurd (howner.symm.trans hfree) (by simp)
    | @unlocks t' cb done hpc =>
        refine (Function.update_of_ne ?_ _ _).trans howner
        rintro rfl
        have hheld : s.owner cb.mutex = some t' := by
          rw [h.owner_iff, hpc, ThreadPc.mutex]
        exact hother (Option.some.inj (hheld.symm.trans howner))
  locked handler := by
    cases handler with
    | onSubscribe | onUnsubscribe | onMessage => exact ⟨.subscribe, List.mem_singleton_self _⟩
    | onSend | onDelivery => exact ⟨.publish, List.mem_singleton_self _⟩

/-- Every handler comes to run, here on a service that has just been created. -/
theorem exists_running (handler : Handler) : ∃ s,
    (component (T := Unit) (H := Unit) { client := true }).Reaches s ∧
      s.running () = some handler := by
  cases handler with
  | onSubscribe =>
      refine Runs.exists_reachable
        [.request () (.subscribe [1] 0) (.accepted 1) (),
          .callback () (.onSubscribe (some ⟨1, 0⟩))] ?_
      exact ⟨_, Option.get_mem (by decide +kernel), by decide +kernel⟩
  | onUnsubscribe =>
      refine Runs.exists_reachable
        [.request () (.unsubscribe [1]) (.accepted 1) (),
          .callback () (.onUnsubscribe (some ⟨1, 0⟩))] ?_
      exact ⟨_, Option.get_mem (by decide +kernel), by decide +kernel⟩
  | onMessage =>
      refine Runs.exists_reachable
        [.request () (.subscribe [1] 0) (.accepted 1) (), .callback () (.msgarrvd [1] 0 [])] ?_
      exact ⟨_, Option.get_mem (by decide +kernel), by decide +kernel⟩
  | onSend =>
      refine Runs.exists_reachable
        [.request () (.publish [1] 0 []) (.accepted 1) (), .callback () (.onSend ⟨1, 0⟩)] ?_
      exact ⟨_, Option.get_mem (by decide +kernel), by decide +kernel⟩
  | onDelivery =>
      refine Runs.exists_reachable
        [.request () (.publish [1] 0 []) (.accepted 1) (), .callback () (.delivered 1)] ?_
      exact ⟨_, Option.get_mem (by decide +kernel), by decide +kernel⟩

end Locked

end Shapeware.Mqtt
