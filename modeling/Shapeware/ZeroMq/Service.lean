import Shapeware.Cxx
import Shapeware.CxxWait
import Shapeware.Library.Runs

/-!
# The ZeroMQ service: application threads and a worker

`ZeroMqService::Imp` has one worker thread, which owns the socket. Application threads ask for the
socket to be opened or closed, or leave a message for it, in critical sections under `m_mux`; the
worker waits for them on `m_cvar` and reports back with `m_cvarReady`. A step is a critical section
of an application thread, or what the worker does between two points where another thread can
notice. The code of the worker is a parameter, since the REQ and the REP worker share all of this.
-/

namespace Shapeware.ZeroMq

inductive SocketState
  | open
  | close
deriving DecidableEq

namespace SocketState

theorem cases (state : SocketState) : state = .open ∨ state = .close := by
  cases state <;> simp

@[simp]
theorem ne_open {state : SocketState} : ¬state = .open ↔ state = .close := by
  cases state <;> simp

@[simp]
theorem ne_close {state : SocketState} : ¬state = .close ↔ state = .open := by
  cases state <;> simp

end SocketState

/-- The data members of `Imp` that the threads share. The handlers are known by whether they are
registered. -/
structure Imp where
  socketOpened : Bool := false
  requireSocketState : SocketState := .close
  runThd : Bool := true
  sendMessage : Bool := false
  messageToSend : StdString := []
  onMessageFunc : Bool := false
  onReqTimeoutFunc : Bool := false
deriving DecidableEq

/-- The `std::logic_error` of `sendMessage`. -/
inductive LogicError
  | socketClosed
deriving DecidableEq

/-- The critical section of `open`, and `opening`. -/
def Imp.open (s : Imp) : Imp × Bool :=
  if s.requireSocketState ≠ .open then
    ({ s with socketOpened := false, requireSocketState := .open }, true)
  else (s, false)

/-- The critical section of `close`, and `closing`. -/
def Imp.close (s : Imp) : Imp × Bool :=
  if s.requireSocketState = .open then
    ({ s with socketOpened := true, requireSocketState := .close }, true)
  else (s, false)

/-- The critical section of `sendMessage`. -/
def Imp.leaveMessage (s : Imp) (msg : StdString) : Imp × Except LogicError Unit :=
  if s.requireSocketState = .open then
    ({ s with messageToSend := msg, sendMessage := true }, .ok ())
  else (s, .error .socketClosed)

/-! ### What is observed -/

inductive SocketOp
  | create
  | setsockopt
  | connect
  | bind
  | send (msg : StdString)
  | poll
  | recv
  | disconnect
  | unbind
  | close
deriving DecidableEq

/-- The sockets of a worker are numbered in the order of their creation. -/
inductive Event
  | socketOp (socket : Nat) (op : SocketOp) (threw : Bool)
  | onMessage (msg : StdString)
  | onReqTimeout
  | accepted (msg : StdString)
  | refused (msg : StdString)
  | opening
  | opened
  | closing
  | closed
deriving DecidableEq

/-- The worker's events; the others are those of application threads. -/
def Event.isWorkers : Event → Bool
  | .socketOp .. | .onMessage _ | .onReqTimeout => true
  | _ => false

/-! ### The worker -/

/-- How the worker's next step turns out: `zmq::poll` reports whether there is input, `recv` what
it has received, and every ZeroMQ operation can throw. -/
inductive Outcome
  | ok
  | threw
  | polled (input : Bool)
  | received (msg : Option StdString)
deriving DecidableEq

/-- What a step of the worker leaves behind; `notifyReady` is `m_cvarReady.notify_all()`. -/
structure Stepped (W : Type) where
  imp : Imp
  worker : W
  events : List Event := []
  notifyReady : Bool := false

namespace Stepped

variable {W : Type}

/-- A step without a ZeroMQ operation. -/
def goes (imp : Imp) (done : W) : Outcome → Option (Stepped W)
  | .ok => some { imp, worker := done }
  | _ => none

/-- A ZeroMQ operation, which leaves the worker at `thrown` if it throws. -/
def operates (imp : Imp) (socket : Nat) (op : SocketOp) (thrown done : W) :
    Outcome → Option (Stepped W)
  | .ok => some { imp, worker := done, events := [.socketOp socket op false] }
  | .threw => some { imp, worker := thrown, events := [.socketOp socket op true] }
  | _ => none

def polls (imp : Imp) (socket : Nat) (thrown : W) (done : Bool → W) : Outcome → Option (Stepped W)
  | .polled input =>
    some { imp, worker := done input, events := [.socketOp socket .poll false] }
  | .threw => some { imp, worker := thrown, events := [.socketOp socket .poll true] }
  | _ => none

def receives (imp : Imp) (socket : Nat) (thrown : W) (done : Option StdString → W) :
    Outcome → Option (Stepped W)
  | .received msg => some { imp, worker := done msg, events := [.socketOp socket .recv false] }
  | .threw => some { imp, worker := thrown, events := [.socketOp socket .recv true] }
  | _ => none

/-- A step that calls a handler, if it is registered. -/
def calls (imp : Imp) (registered : Bool) (event : Event) (done : W) :
    Outcome → Option (Stepped W)
  | .ok => some { imp, worker := done, events := if registered then [event] else [] }
  | _ => none

/-- A critical section under `m_muxReady` that sets `m_socketOpened`. -/
def reports (imp : Imp) (socketOpened : Bool) (done : W) : Outcome → Option (Stepped W)
  | .ok => some { imp := { imp with socketOpened }, worker := done, notifyReady := true }
  | _ => none

/-- A step of `m_cvar.wait(lck, predicate)`. When the predicate holds, the wait is over and the
worker goes on, still under `m_mux`. -/
def waits (imp : Imp) (wait : Wait) (predicate : Bool) (waiting : Wait → W)
    (done : Outcome → Option (Stepped W)) : Outcome → Option (Stepped W) :=
  match wait with
  | .test => if predicate then done else goes imp (waiting .block)
  | .block => goes imp (waiting .blocked)
  | .blocked => fun _ => none
  | .relock => goes imp (waiting .test)

variable {imp : Imp} {socket : Nat} {op : SocketOp} {thrown done : W} {outcome : Outcome}
  {r : Stepped W}

theorem goes_cases (h : goes imp done outcome = some r) :
    outcome = .ok ∧ r = { imp, worker := done } := by
  cases outcome <;> simp_all [goes]

theorem operates_cases (h : operates imp socket op thrown done outcome = some r) :
    (outcome = .ok ∧ r = { imp, worker := done, events := [.socketOp socket op false] }) ∨
      (outcome = .threw ∧
        r = { imp, worker := thrown, events := [.socketOp socket op true] }) := by
  cases outcome <;> simp_all [operates]

theorem polls_cases {done : Bool → W} (h : polls imp socket thrown done outcome = some r) :
    (∃ input, outcome = .polled input ∧
        r = { imp, worker := done input, events := [.socketOp socket .poll false] }) ∨
      (outcome = .threw ∧
        r = { imp, worker := thrown, events := [.socketOp socket .poll true] }) := by
  cases outcome <;> simp_all [polls]

theorem receives_cases {done : Option StdString → W}
    (h : receives imp socket thrown done outcome = some r) :
    (∃ msg, outcome = .received msg ∧
        r = { imp, worker := done msg, events := [.socketOp socket .recv false] }) ∨
      (outcome = .threw ∧
        r = { imp, worker := thrown, events := [.socketOp socket .recv true] }) := by
  cases outcome <;> simp_all [receives]

theorem calls_cases {registered : Bool} {event : Event}
    (h : calls imp registered event done outcome = some r) :
    outcome = .ok ∧
      r = { imp, worker := done, events := if registered then [event] else [] } := by
  cases outcome <;> simp_all [calls]

theorem reports_cases {socketOpened : Bool}
    (h : reports imp socketOpened done outcome = some r) :
    outcome = .ok ∧
      r = { imp := { imp with socketOpened }, worker := done, notifyReady := true } := by
  cases outcome <;> simp_all [reports]

theorem waits_test {predicate : Bool} (h : predicate = true) (waiting : Wait → W)
    (done : Outcome → Option (Stepped W)) (outcome : Outcome) :
    waits imp .test predicate waiting done outcome = done outcome := by
  rw [waits, if_pos h]

/-- A wait goes on waiting, or its predicate holds and it is over. -/
theorem waits_cases {wait : Wait} {predicate : Bool} {waiting : Wait → W}
    {done : Outcome → Option (Stepped W)}
    (h : waits imp wait predicate waiting done outcome = some r) :
    (∃ wait', wait.Goes predicate wait' ∧ outcome = .ok ∧
        r = { imp, worker := waiting wait' }) ∨
      (wait = .test ∧ predicate = true ∧ done outcome = some r) := by
  cases wait with
  | test =>
      cases predicate with
      | true => exact .inr ⟨rfl, rfl, h⟩
      | false => exact .inl ⟨_, .block rfl, goes_cases h⟩
  | block => exact .inl ⟨_, .sleep, goes_cases h⟩
  | relock => exact .inl ⟨_, .retest, goes_cases h⟩
  | blocked => cases h

end Stepped

/-- The code of a worker thread with local state `W`. -/
structure Program (W : Type) where
  start : W
  finished : W → Bool
  holdsMux : W → Bool
  /-- `m_cvar.notify_all()`, as the worker sees it. -/
  notified : W → W
  step : Imp → W → Outcome → Option (Stepped W)

/-! ### The whole service -/

/-- Where an application thread is: outside of the service, in the wait of `open` or `close` before
it tests `m_socketOpened` or blocked there, or in `deactivate` before the notification or the join. -/
inductive ThreadPc
  | idle
  | openReady
  | openWait
  | closeReady
  | closeWait
  | deactivating
  | joining
deriving DecidableEq

namespace ThreadPc

/-- `m_cvarReady.notify_all()`. -/
def notified : ThreadPc → ThreadPc
  | .openWait => .openReady
  | .closeWait => .closeReady
  | pc => pc

end ThreadPc

structure Service (W T : Type) where
  imp : Imp
  worker : W
  threads : T → ThreadPc
  trace : List Event

inductive Action (T : Type)
  | open (t : T)
  | close (t : T)
  | sendMessage (t : T) (msg : StdString)
  | deactivate (t : T)
  /-- The next step of a thread that is inside of a call. -/
  | resume (t : T)
  /-- A thread wakes up from `m_cvarReady` without a notification. -/
  | wake (t : T)
  | registerOnMessage (registered : Bool)
  | registerOnReqTimeout (registered : Bool)
  | worker (outcome : Outcome)
  /-- The worker wakes up from `m_cvar` without a notification. -/
  | wakeWorker
deriving DecidableEq

def Action.isWorker {T : Type} : Action T → Bool
  | .worker _ => true
  | _ => false

def Action.isSendMessage {T : Type} : Action T → Bool
  | .sendMessage .. => true
  | _ => false

/-- Steps of the worker in which nothing is received and nothing throws. -/
def Action.working {T : Type} (n : Nat) : List (Action T) := List.replicate n (.worker .ok)

namespace Service

variable {W T : Type} [DecidableEq T]

def init (P : Program W) : Service W T :=
  { imp := {}, worker := P.start, threads := fun _ => .idle, trace := [] }

/-- Thread `t` can enter a critical section under `m_mux`. -/
def CanEnter (P : Program W) (s : Service W T) (t : T) : Prop :=
  s.threads t = .idle ∧ P.holdsMux s.worker = false

instance (P : Program W) (s : Service W T) (t : T) : Decidable (s.CanEnter P t) :=
  inferInstanceAs (Decidable (s.threads t = .idle ∧ P.holdsMux s.worker = false))

def opens (P : Program W) (s : Service W T) (t : T) : Service W T :=
  if s.imp.open.2 then
    { imp := s.imp.open.1, worker := P.notified s.worker
      threads := Function.update s.threads t .openReady, trace := s.trace ++ [.opening] }
  else s

def closes (P : Program W) (s : Service W T) (t : T) : Service W T :=
  if s.imp.close.2 then
    { imp := s.imp.close.1, worker := P.notified s.worker
      threads := Function.update s.threads t .closeReady, trace := s.trace ++ [.closing] }
  else s

def leavesMessage (P : Program W) (s : Service W T) (msg : StdString) : Service W T :=
  match s.imp.leaveMessage msg with
  | (imp, .ok ()) =>
    { s with imp, worker := P.notified s.worker, trace := s.trace ++ [.accepted msg] }
  | (_, .error _) => { s with trace := s.trace ++ [.refused msg] }

/-- The next step of a thread in the waits of `open` and `close`, or in `deactivate`. -/
def resumes (P : Program W) (s : Service W T) (t : T) : Option (Service W T) :=
  match s.threads t with
  | .openReady => some <|
    if s.imp.socketOpened then
      { s with threads := Function.update s.threads t .idle, trace := s.trace ++ [.opened] }
    else { s with threads := Function.update s.threads t .openWait }
  | .closeReady => some <|
    if !s.imp.socketOpened then
      { s with threads := Function.update s.threads t .idle, trace := s.trace ++ [.closed] }
    else { s with threads := Function.update s.threads t .closeWait }
  | .deactivating => some
    { s with worker := P.notified s.worker, threads := Function.update s.threads t .joining }
  | .joining =>
    if P.finished s.worker then some { s with threads := Function.update s.threads t .idle }
    else none
  | .idle | .openWait | .closeWait => none

def works (s : Service W T) (r : Stepped W) : Service W T :=
  { imp := r.imp, worker := r.worker
    threads := if r.notifyReady then fun t => (s.threads t).notified else s.threads
    trace := s.trace ++ r.events }

def step (P : Program W) (s : Service W T) : Action T → Option (Service W T)
  | .open t => if s.CanEnter P t then some (s.opens P t) else none
  | .close t => if s.CanEnter P t then some (s.closes P t) else none
  | .sendMessage t msg => if s.CanEnter P t then some (s.leavesMessage P msg) else none
  | .deactivate t =>
    if s.threads t = .idle then
      some { s with
        imp := { s.imp with runThd := false }
        threads := Function.update s.threads t .deactivating }
    else none
  | .resume t => s.resumes P t
  | .wake t => some { s with threads := Function.update s.threads t (s.threads t).notified }
  | .registerOnMessage registered =>
    some { s with imp := { s.imp with onMessageFunc := registered } }
  | .registerOnReqTimeout registered =>
    some { s with imp := { s.imp with onReqTimeoutFunc := registered } }
  | .worker outcome => (P.step s.imp s.worker outcome).map s.works
  | .wakeWorker => some { s with worker := P.notified s.worker }

/-! ### All that a step can do -/

inductive Steps (P : Program W) (s : Service W T) : Action T → Service W T → Prop
  | opening {t : T} (henter : s.CanEnter P t) (hstate : s.imp.requireSocketState = .close) :
      Steps P s (.open t)
        { imp := { s.imp with socketOpened := false, requireSocketState := .open }
          worker := P.notified s.worker
          threads := Function.update s.threads t .openReady, trace := s.trace ++ [.opening] }
  | openAlready {t : T} (hstate : s.imp.requireSocketState = .open) : Steps P s (.open t) s
  | closing {t : T} (henter : s.CanEnter P t) (hstate : s.imp.requireSocketState = .open) :
      Steps P s (.close t)
        { imp := { s.imp with socketOpened := true, requireSocketState := .close }
          worker := P.notified s.worker
          threads := Function.update s.threads t .closeReady, trace := s.trace ++ [.closing] }
  | closeAlready {t : T} (hstate : s.imp.requireSocketState = .close) : Steps P s (.close t) s
  | accepts {t : T} {msg : StdString} (henter : s.CanEnter P t)
      (hstate : s.imp.requireSocketState = .open) :
      Steps P s (.sendMessage t msg)
        { s with
          imp := { s.imp with messageToSend := msg, sendMessage := true }
          worker := P.notified s.worker, trace := s.trace ++ [.accepted msg] }
  | refuses {t : T} {msg : StdString} (hstate : s.imp.requireSocketState = .close) :
      Steps P s (.sendMessage t msg) { s with trace := s.trace ++ [.refused msg] }
  | stops {t : T} (hidle : s.threads t = .idle) :
      Steps P s (.deactivate t)
        { s with
          imp := { s.imp with runThd := false }
          threads := Function.update s.threads t .deactivating }
  | opened {t : T} (hpc : s.threads t = .openReady) (hopened : s.imp.socketOpened = true) :
      Steps P s (.resume t)
        { s with
          threads := Function.update s.threads t .idle, trace := s.trace ++ [.opened] }
  | openWaits {t : T} (hpc : s.threads t = .openReady) (hopened : s.imp.socketOpened = false) :
      Steps P s (.resume t) { s with threads := Function.update s.threads t .openWait }
  | closed {t : T} (hpc : s.threads t = .closeReady) (hopened : s.imp.socketOpened = false) :
      Steps P s (.resume t)
        { s with
          threads := Function.update s.threads t .idle, trace := s.trace ++ [.closed] }
  | closeWaits {t : T} (hpc : s.threads t = .closeReady) (hopened : s.imp.socketOpened = true) :
      Steps P s (.resume t) { s with threads := Function.update s.threads t .closeWait }
  | notifies {t : T} (hpc : s.threads t = .deactivating) :
      Steps P s (.resume t)
        { s with
          worker := P.notified s.worker, threads := Function.update s.threads t .joining }
  | joins {t : T} (hpc : s.threads t = .joining) (hfinished : P.finished s.worker = true) :
      Steps P s (.resume t) { s with threads := Function.update s.threads t .idle }
  | wakes {t : T} :
      Steps P s (.wake t)
        { s with threads := Function.update s.threads t (s.threads t).notified }
  | registersOnMessage {registered : Bool} :
      Steps P s (.registerOnMessage registered)
        { s with imp := { s.imp with onMessageFunc := registered } }
  | registersOnReqTimeout {registered : Bool} :
      Steps P s (.registerOnReqTimeout registered)
        { s with imp := { s.imp with onReqTimeoutFunc := registered } }
  | works {outcome : Outcome} {r : Stepped W} (hwork : P.step s.imp s.worker outcome = some r) :
      Steps P s (.worker outcome) (s.works r)
  | wakesWorker : Steps P s .wakeWorker { s with worker := P.notified s.worker }

variable {P : Program W} {s s' : Service W T} {a : Action T}

theorem step_cases (h : step P s a = some s') : s.Steps P a s' := by
  cases a with
  | «open» t =>
      rw [step] at h
      split_ifs at h with henter
      obtain rfl := Option.some.inj h
      obtain hstate | hstate := s.imp.requireSocketState.cases
      · simpa [opens, Imp.open, hstate] using Steps.openAlready hstate
      · simpa [opens, Imp.open, hstate] using Steps.opening henter hstate
  | close t =>
      rw [step] at h
      split_ifs at h with henter
      obtain rfl := Option.some.inj h
      obtain hstate | hstate := s.imp.requireSocketState.cases
      · simpa [closes, Imp.close, hstate] using Steps.closing henter hstate
      · simpa [closes, Imp.close, hstate] using Steps.closeAlready hstate
  | sendMessage t msg =>
      rw [step] at h
      split_ifs at h with henter
      obtain rfl := Option.some.inj h
      obtain hstate | hstate := s.imp.requireSocketState.cases
      · simpa [leavesMessage, Imp.leaveMessage, hstate] using Steps.accepts henter hstate
      · simpa [leavesMessage, Imp.leaveMessage, hstate] using Steps.refuses hstate
  | deactivate t =>
      rw [step] at h
      split_ifs at h with hidle
      obtain rfl := Option.some.inj h
      exact .stops hidle
  | resume t =>
      rw [step, resumes] at h
      cases hpc : s.threads t with
      | openReady =>
          simp only [hpc, Option.some.injEq] at h
          subst h
          cases hopened : s.imp.socketOpened with
          | true => exact .opened hpc hopened
          | false => exact .openWaits hpc hopened
      | closeReady =>
          simp only [hpc, Option.some.injEq] at h
          subst h
          cases hopened : s.imp.socketOpened with
          | true => exact .closeWaits hpc hopened
          | false => exact .closed hpc hopened
      | deactivating =>
          simp only [hpc, Option.some.injEq] at h
          subst h
          exact .notifies hpc
      | joining =>
          simp only [hpc] at h
          split_ifs at h with hfinished
          obtain rfl := Option.some.inj h
          exact .joins hpc hfinished
      | idle | openWait | closeWait => simp [hpc] at h
  | wake t =>
      obtain rfl := Option.some.inj h
      exact .wakes
  | registerOnMessage registered =>
      obtain rfl := Option.some.inj h
      exact .registersOnMessage
  | registerOnReqTimeout registered =>
      obtain rfl := Option.some.inj h
      exact .registersOnReqTimeout
  | worker outcome =>
      obtain ⟨r, hwork, rfl⟩ := Option.map_eq_some_iff.mp h
      exact .works hwork
  | wakeWorker =>
      obtain rfl := Option.some.inj h
      exact .wakesWorker

/-- What a step of an application thread leaves alone: it adds none of the worker's events, at most
notifies the worker, and while the worker holds `m_mux` it can only ask it to stop. -/
structure Frame (P : Program W) (s s' : Service W T) : Prop where
  worker : s'.worker = s.worker ∨ s'.worker = P.notified s.worker
  trace : ∃ events, s'.trace = s.trace ++ events ∧ ∀ e ∈ events, e.isWorkers = false
  holds : P.holdsMux s.worker = true →
    s'.imp.requireSocketState = s.imp.requireSocketState ∧
      s'.imp.sendMessage = s.imp.sendMessage ∧ s'.imp.messageToSend = s.imp.messageToSend
  runThd : s'.imp.runThd = true → s.imp.runThd = true

theorem Steps.frame (h : s.Steps P a s') (ha : ∀ outcome, a ≠ .worker outcome) :
    s.Frame P s' := by
  have hsame : ∃ events, s.trace = s.trace ++ events ∧ ∀ e ∈ events, e.isWorkers = false :=
    ⟨[], by simp, by simp⟩
  have hone : ∀ e : Event, e.isWorkers = false →
      ∃ events, s.trace ++ [e] = s.trace ++ events ∧ ∀ e ∈ events, e.isWorkers = false :=
    fun e he => ⟨[e], rfl, by simpa using he⟩
  cases h with
  | opening henter _ => exact ⟨.inr rfl, hone _ rfl, by simp [henter.2], id⟩
  | closing henter _ => exact ⟨.inr rfl, hone _ rfl, by simp [henter.2], id⟩
  | accepts henter _ => exact ⟨.inr rfl, hone _ rfl, by simp [henter.2], id⟩
  | refuses => exact ⟨.inl rfl, hone _ rfl, fun _ => ⟨rfl, rfl, rfl⟩, id⟩
  | stops => exact ⟨.inl rfl, hsame, fun _ => ⟨rfl, rfl, rfl⟩, fun h => absurd h Bool.false_ne_true⟩
  | opened | closed => exact ⟨.inl rfl, hone _ rfl, fun _ => ⟨rfl, rfl, rfl⟩, id⟩
  | notifies | wakesWorker => exact ⟨.inr rfl, hsame, fun _ => ⟨rfl, rfl, rfl⟩, id⟩
  | works => exact absurd rfl (ha _)
  | _ => exact ⟨.inl rfl, hsame, fun _ => ⟨rfl, rfl, rfl⟩, id⟩

end Service

/-! ### Assumptions on ZeroMQ and on the application -/

/-- A `recv` after a poll that reported input returns a message. -/
def RecvReturns {T : Type} (a : Action T) : Prop := a ≠ .worker (.received none)

/-- The ZeroMQ operations do not throw. -/
def NoThrow {T : Type} (a : Action T) : Prop := a ≠ .worker .threw

/-- Both handlers are registered when the worker runs. -/
def HandlersRegistered {W T : Type} (s : Service W T) (a : Action T) : Prop :=
  a.isWorker = true → s.imp.onMessageFunc = true ∧ s.imp.onReqTimeoutFunc = true

instance {T : Type} [DecidableEq T] (a : Action T) : Decidable (RecvReturns a) :=
  inferInstanceAs (Decidable (a ≠ .worker (.received none)))

instance {T : Type} [DecidableEq T] (a : Action T) : Decidable (NoThrow a) :=
  inferInstanceAs (Decidable (a ≠ .worker .threw))

instance {W T : Type} (s : Service W T) (a : Action T) : Decidable (HandlersRegistered s a) :=
  inferInstanceAs (Decidable (_ → _))

end Shapeware.ZeroMq
