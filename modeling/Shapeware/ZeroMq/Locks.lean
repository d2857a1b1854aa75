import Shapeware.ZeroMq.WorkerRep
import Shapeware.ZeroMq.WorkerReq
import Shapeware.Library.Mutexes

/-!
# The mutexes of the ZeroMQ service

Both workers call the handlers with `m_mux` locked. A worker that has come to the call of a handler
runs it until its next step. `m_muxReady` is only locked within a step.
-/

namespace Shapeware.ZeroMq

inductive Mutex
  | mux
  | muxReady
deriving DecidableEq

/-- The functions of `IZeroMqService`. -/
inductive Method
  | registerOnMessage
  | registerOnReqTimeout
  | unregisterOnMessage
  | unregisterOnReqTimeout
  | sendMessage
  | open
  | close
  | isOpen
deriving DecidableEq

def Method.locks : Method → List Mutex
  | .sendMessage | .isOpen => [.mux]
  | .open | .close => [.mux, .muxReady]
  | _ => []

inductive Handler
  | onMessage
  | onReqTimeout
deriving DecidableEq

inductive Agent (T : Type)
  | worker
  | application (t : T)
deriving DecidableEq

def Action.agent {T : Type} : Action T → Option (Agent T)
  | .worker _ => some .worker
  | .open t | .close t | .sendMessage t _ | .deactivate t | .resume t => some (.application t)
  | .wake _ | .wakeWorker | .registerOnMessage _ | .registerOnReqTimeout _ => none

/-- The handler that `workerReq` is running. -/
def ReqWorker.running (s : Imp) (w : ReqWorker) : Option Handler :=
  match w.pc with
  | .onMessage _ => if s.onMessageFunc then some .onMessage else none
  | .onReqTimeout => if s.onReqTimeoutFunc then some .onReqTimeout else none
  | _ => none

/-- The handler that `workerRep` is running. -/
def RepWorker.running (s : Imp) (w : RepWorker) : Option Handler :=
  match w.pc with
  | .onMessage _ => if s.onMessageFunc then some .onMessage else none
  | _ => none

namespace Service

variable {W T : Type} [DecidableEq T] {P : Program W} {running : Imp → W → Option Handler}
  {s s' : Service W T} {a : Action T}

def owner (P : Program W) (s : Service W T) : Mutex → Option (Agent T)
  | .mux => if P.holdsMux s.worker then some .worker else none
  | .muxReady => none

omit [DecidableEq T] in
theorem owner_eq_some {m : Mutex} {t : Agent T} :
    s.owner P m = some t ↔ m = .mux ∧ P.holdsMux s.worker = true ∧ t = .worker := by
  cases m with
  | mux =>
      by_cases hholds : P.holdsMux s.worker = true
      · simp [owner, hholds, @eq_comm _ t]
      · simp [owner, hholds]
  | muxReady => simp [owner]

/-- The service with what is seen of its mutexes and of its handlers. -/
def component (P : Program W) (running : Imp → W → Option Handler) :
    Mutexes.Component (Service W T) (Action T) (Agent T) Mutex Handler Method where
  init := init P
  step := step P
  actor := Action.agent
  owner := owner P
  running
    | s, .worker => running s.imp s.worker
    | _, .application _ => none
  locks := Method.locks

theorem holdsMux_of_step (hnotified : ∀ w, P.holdsMux w = true → P.notified w = w)
    (hstep : step P s a = some s') (hother : a.agent ≠ some .worker)
    (hholds : P.holdsMux s.worker = true) : P.holdsMux s'.worker = true := by
  have hframe : s.Frame P s' := (step_cases hstep).frame fun outcome ha => hother (by rw [ha]; rfl)
  obtain hsame | hsame := hframe.worker
  · rwa [hsame]
  · rwa [hsame, hnotified s.worker hholds]

theorem callsUnder (hrunning : ∀ imp w h, running imp w = some h → P.holdsMux w = true)
    (hnotified : ∀ w, P.holdsMux w = true → P.notified w = w) :
    (component (T := T) P running).CallsUnder fun _ => .mux where
  owner_iff s hs t h hrun m := by
    cases t with
    | application t => cases hrun
    | worker =>
        have hholds := hrunning s.imp s.worker h hrun
        exact owner_eq_some.trans (by simp [hholds])
  keeps s a s' t m hs hstep hother howner := by
    obtain ⟨rfl, hholds, rfl⟩ := owner_eq_some.mp howner
    exact owner_eq_some.mpr ⟨rfl, holdsMux_of_step hnotified hstep hother hholds, rfl⟩
  locked _ := ⟨.sendMessage, List.mem_singleton_self _⟩

end Service

/-! ### The two workers -/

theorem ReqWorker.notified_eq {w : ReqWorker} (hholds : w.holdsMux = true) : w.notified = w := by
  obtain ⟨pc, socket, resetSocket⟩ := w
  cases pc with
  | waitOpen wait | waitSend wait => simp [notified, Wait.notified_eq hholds]
  | _ => rfl

theorem RepWorker.notified_eq {w : RepWorker} (hholds : w.holdsMux = true) : w.notified = w := by
  obtain ⟨pc, socket⟩ := w
  cases pc with
  | waitOpen wait | waitReply wait => simp [notified, Wait.notified_eq hholds]
  | _ => rfl

open Service

variable {T : Type} [DecidableEq T]

theorem callsUnder_req :
    (component (T := T) workerReq ReqWorker.running).CallsUnder fun _ => .mux := by
  refine callsUnder ?_ fun w => ReqWorker.notified_eq
  rintro imp ⟨pc, socket, resetSocket⟩ h hrun
  cases pc with
  | onMessage | onReqTimeout => rfl
  | _ => cases hrun

theorem callsUnder_rep :
    (component (T := T) workerRep RepWorker.running).CallsUnder fun _ => .mux := by
  refine callsUnder ?_ fun w => RepWorker.notified_eq
  rintro imp ⟨pc, socket⟩ h hrun
  cases pc with
  | onMessage => rfl
  | _ => cases hrun

theorem exists_running_req (handler : Handler) : ∃ s,
    (component (T := Unit) workerReq ReqWorker.running).Reaches s ∧
      s.worker.running s.imp = some handler := by
  cases handler with
  | onMessage =>
      refine Runs.exists_reachable
        (List.flatten [[.registerOnMessage true, .open ()], Action.working 10,
          [.resume (), .sendMessage () []], Action.working 3,
          [.worker (.polled true), .worker (.received (some []))]]) ?_
      exact ⟨_, Option.get_mem (by decide +kernel), by decide +kernel⟩
  | onReqTimeout =>
      refine Runs.exists_reachable
        (List.flatten [[.registerOnReqTimeout true, .open ()], Action.working 10,
          [.resume (), .sendMessage () []], Action.working 3, [.worker (.polled false)]]) ?_
      exact ⟨_, Option.get_mem (by decide +kernel), by decide +kernel⟩

theorem exists_running_rep : ∃ s,
    (component (T := Unit) workerRep RepWorker.running).Reaches s ∧
      s.worker.running s.imp = some .onMessage := by
  refine Runs.exists_reachable
    (List.flatten [[.registerOnMessage true, .open ()], Action.working 8,
      [.worker (.polled true), .worker .ok, .worker (.received (some []))]]) ?_
  exact ⟨_, Option.get_mem (by decide +kernel), by decide +kernel⟩

end Shapeware.ZeroMq
