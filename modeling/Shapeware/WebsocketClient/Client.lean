import Shapeware.Cxx
import Shapeware.CxxWait
import Shapeware.Library.Runs

/-!
# The websocket client

The library thread of websocketpp runs all callbacks. The state of a session changes first, and the
callback that tells of it comes at any time after that: the change and the callback are two steps.
`on_open` sets `m_connection_hdl` before it locks `m_connectedMux`; the open and the close handler of
the application are called with the mutex locked. Any other thread may call `connect` and `close`.
-/

namespace Shapeware.WebsocketClient

inductive Handler
  | message
  | messageStr
  | open
  | close
deriving DecidableEq

/-- A call of a message handler of the application. -/
inductive Call
  | message (vmsg : List UInt8)
  | messageStr (msg : StdString)
deriving DecidableEq

/-- The data members of `Imp`, but those that are only traced. The handlers are known by whether they
are registered. -/
structure Imp where
  connected : Bool := false
  connectionHdl : Option Nat := none
  registered : Handler → Bool := fun _ => false

namespace Imp

def onMessage (s : Imp) (payload : StdString) : List Call :=
  (if s.registered .messageStr then [.messageStr payload] else []) ++
    if s.registered .message then [.message payload] else []

/-- The payload of the frame that is sent for a string. -/
def sendMessageStr (msg : StdString) : StdString := msg

/-- `std::string((char*)msg.data(), msg.size())` is sent like any string. -/
def sendMessage (msg : List UInt8) : StdString := sendMessageStr msg

end Imp

/-- `websocketpp::session::state`. -/
inductive SessionState
  | connecting
  | open
  | closing
  | closed
deriving DecidableEq

/-- The callbacks of websocketpp that tell of a change of the state. -/
inductive Callback
  | open
  | fail
  | close
deriving DecidableEq

/-- A connection of websocketpp. -/
structure Session where
  state : SessionState
  /-- The callbacks that were not made yet. -/
  owed : List Callback
deriving DecidableEq

/-- The library thread is between two callbacks, waits for `m_connectedMux` in one of them, or is
inside of a handler of the application with the mutex locked. -/
inductive LibraryPc
  | run
  | onOpen (hdl : Nat)
  | onFail (hdl : Nat)
  | onClose (hdl : Nat)
  | openHandler (hdl : Nat)
  | closeHandler (hdl : Nat)
deriving DecidableEq

/-- The library thread is in a callback that it has not told the service yet. -/
def LibraryPc.waits : LibraryPc → Bool
  | .onOpen _ | .onFail _ | .onClose _ => true
  | .run | .openHandler _ | .closeHandler _ => false

/-- A thread is outside, or waits in `connect` for the state of its session to change. -/
inductive ThreadPc
  | idle
  | connect (hdl : Nat) (w : Wait)
deriving DecidableEq

def ThreadPc.notified : ThreadPc → ThreadPc
  | .idle => .idle
  | .connect hdl w => .connect hdl w.notified

inductive Owner (T : Type)
  | library
  | thread (t : T)
deriving DecidableEq

/-- The critical sections that set `m_connected`, and the returns from `connect` with the state of the
session then. -/
inductive Event
  | opened (hdl : Nat)
  | failed (hdl : Nat)
  | closed (hdl : Nat)
  | close
  | returned (hdl : Nat) (state : SessionState)
deriving DecidableEq

structure Client (T : Type) where
  imp : Imp
  connectedMux : Option (Owner T)
  sessions : Nat → Option Session
  library : LibraryPc
  threads : T → ThreadPc
  trace : List Event

inductive Action (T : Type)
  /-- `get_connection` gives a new connection, or an error. -/
  | connect (t : T) (con : Option Nat)
  | close (t : T)
  /-- The next step of a thread in `connect`. -/
  | resume (t : T)
  /-- A thread wakes up without a notification. -/
  | wakes (t : T)
  | register (handler : Handler) (registered : Bool)
  /-- The handshake succeeds or fails, or the connection ends. -/
  | succeeds (hdl : Nat)
  | fails (hdl : Nat)
  | ends (hdl : Nat)
  /-- The library thread makes a callback. -/
  | callback (hdl : Nat)
  /-- The next step of the library thread in a callback. -/
  | library
deriving DecidableEq

namespace Client

variable {T : Type}

/-- The service is activated, and `connect` was not called yet. -/
def activated (registered : Handler → Bool) : Client T :=
  { imp := { registered }, connectedMux := none, sessions := fun _ => none, library := .run
    threads := fun _ => .idle, trace := [] }

def isConnected (s : Client T) : Bool := s.imp.connected

def state (s : Client T) (hdl : Nat) : Option SessionState := (s.sessions hdl).map Session.state

def owed (s : Client T) (hdl : Nat) : List Callback := ((s.sessions hdl).map Session.owed).getD []

theorem state_of_session {s : Client T} {hdl : Nat} {session : Session}
    (hsession : s.sessions hdl = some session) : s.state hdl = some session.state := by
  simp [state, hsession]

theorem owed_of_session {s : Client T} {hdl : Nat} {session : Session}
    (hsession : s.sessions hdl = some session) : s.owed hdl = session.owed := by
  simp [owed, hsession]

theorem state_of_sessions {s s' : Client T} (hsessions : s'.sessions = s.sessions) (hdl : Nat) :
    s'.state hdl = s.state hdl := by
  rw [state, state, hsessions]

theorem owed_of_sessions {s s' : Client T} (hsessions : s'.sessions = s.sessions) (hdl : Nat) :
    s'.owed hdl = s.owed hdl := by
  rw [owed, owed, hsessions]

def becomes (s : Client T) (hdl : Nat) (state : SessionState) (owed : List Callback) : Client T :=
  { s with sessions := Function.update s.sessions hdl (some { state, owed }) }

/-- `m_connected` is set and all threads are notified. -/
def sets (s : Client T) (connected : Bool) (e : Event) : Client T :=
  { s with
    imp := { s.imp with connected }
    threads := fun t => (s.threads t).notified
    trace := s.trace ++ [e] }

section Becomes

variable (s : Client T) (hdl : Nat) (state' : SessionState) (owed' : List Callback)

@[simp] theorem becomes_imp : (s.becomes hdl state' owed').imp = s.imp := rfl

@[simp] theorem becomes_connectedMux :
    (s.becomes hdl state' owed').connectedMux = s.connectedMux := rfl

@[simp] theorem becomes_library : (s.becomes hdl state' owed').library = s.library := rfl

@[simp] theorem becomes_threads : (s.becomes hdl state' owed').threads = s.threads := rfl

@[simp] theorem becomes_trace : (s.becomes hdl state' owed').trace = s.trace := rfl

@[simp] theorem becomes_state (hdl' : Nat) : (s.becomes hdl state' owed').state hdl' =
    if hdl' = hdl then some state' else s.state hdl' := by
  by_cases heq : hdl' = hdl <;> simp [state, becomes, heq]

@[simp] theorem becomes_owed (hdl' : Nat) : (s.becomes hdl state' owed').owed hdl' =
    if hdl' = hdl then owed' else s.owed hdl' := by
  by_cases heq : hdl' = hdl <;> simp [owed, becomes, heq]

end Becomes

section Sets

variable (s : Client T) (connected : Bool) (e : Event)

@[simp] theorem sets_connected : (s.sets connected e).imp.connected = connected := rfl

@[simp] theorem sets_connectionHdl :
    (s.sets connected e).imp.connectionHdl = s.imp.connectionHdl := rfl

@[simp] theorem sets_registered : (s.sets connected e).imp.registered = s.imp.registered := rfl

@[simp] theorem sets_connectedMux : (s.sets connected e).connectedMux = s.connectedMux := rfl

@[simp] theorem sets_sessions : (s.sets connected e).sessions = s.sessions := rfl

@[simp] theorem sets_state (hdl : Nat) : (s.sets connected e).state hdl = s.state hdl := rfl

@[simp] theorem sets_owed (hdl : Nat) : (s.sets connected e).owed hdl = s.owed hdl := rfl

@[simp] theorem sets_library : (s.sets connected e).library = s.library := rfl

@[simp] theorem sets_trace : (s.sets connected e).trace = s.trace ++ [e] := rfl

end Sets

/-! ### The library -/

def succeeds (s : Client T) (hdl : Nat) : Option (Client T) :=
  match s.sessions hdl with
  | some ⟨.connecting, owed⟩ => some (s.becomes hdl .open (owed ++ [.open]))
  | _ => none

def fails (s : Client T) (hdl : Nat) : Option (Client T) :=
  match s.sessions hdl with
  | some ⟨.connecting, owed⟩ => some (s.becomes hdl .closed (owed ++ [.fail]))
  | _ => none

def ends (s : Client T) (hdl : Nat) : Option (Client T) :=
  match s.sessions hdl with
  | some ⟨.open, owed⟩ | some ⟨.closing, owed⟩ => some (s.becomes hdl .closed (owed ++ [.close]))
  | _ => none

/-- The library thread begins a callback. -/
def begins (s : Client T) (hdl : Nat) : Callback → Client T
  | .open => { s with imp := { s.imp with connectionHdl := some hdl }, library := .onOpen hdl }
  | .fail => { s with library := .onFail hdl }
  | .close => { s with library := .onClose hdl }

def callback (s : Client T) (hdl : Nat) : Option (Client T) :=
  match s.library, s.sessions hdl with
  | .run, some ⟨state, cb :: owed⟩ => some ((s.becomes hdl state owed).begins hdl cb)
  | _, _ => none

/-- The library thread has locked the mutex, and calls the handler if it is registered. -/
def calls (s : Client T) (handler : Handler) (pc : LibraryPc) : Client T :=
  if s.imp.registered handler then { s with connectedMux := some .library, library := pc }
  else { s with library := .run }

section Begins

variable (s : Client T) (hdl : Nat) (cb : Callback)

@[simp] theorem begins_connected : (s.begins hdl cb).imp.connected = s.imp.connected := by
  cases cb <;> rfl

@[simp] theorem begins_connectedMux : (s.begins hdl cb).connectedMux = s.connectedMux := by
  cases cb <;> rfl

@[simp] theorem begins_sessions : (s.begins hdl cb).sessions = s.sessions := by
  cases cb <;> rfl

@[simp] theorem begins_state (hdl' : Nat) : (s.begins hdl cb).state hdl' = s.state hdl' :=
  state_of_sessions (begins_sessions s hdl cb) hdl'

@[simp] theorem begins_owed (hdl' : Nat) : (s.begins hdl cb).owed hdl' = s.owed hdl' :=
  owed_of_sessions (begins_sessions s hdl cb) hdl'

@[simp] theorem begins_trace : (s.begins hdl cb).trace = s.trace := by
  cases cb <;> rfl

end Begins

section Calls

variable (s : Client T) (handler : Handler) (pc : LibraryPc)

@[simp] theorem calls_imp : (s.calls handler pc).imp = s.imp := by
  unfold calls
  split <;> rfl

@[simp] theorem calls_sessions : (s.calls handler pc).sessions = s.sessions := by
  unfold calls
  split <;> rfl

@[simp] theorem calls_state (hdl : Nat) : (s.calls handler pc).state hdl = s.state hdl :=
  state_of_sessions (calls_sessions s handler pc) hdl

@[simp] theorem calls_owed (hdl : Nat) : (s.calls handler pc).owed hdl = s.owed hdl :=
  owed_of_sessions (calls_sessions s handler pc) hdl

@[simp] theorem calls_trace : (s.calls handler pc).trace = s.trace := by
  unfold calls
  split <;> rfl

theorem calls_waits (hpc : pc.waits = false) : (s.calls handler pc).library.waits = false := by
  unfold calls
  split
  · exact hpc
  · rfl

end Calls

def works (s : Client T) : Option (Client T) :=
  match s.library with
  | .run => none
  | .onOpen hdl =>
    if s.connectedMux = none then
      some ((s.sets true (.opened hdl)).calls .open (.openHandler hdl))
    else none
  | .onFail hdl =>
    if s.connectedMux = none then some { s.sets false (.failed hdl) with library := .run } else none
  | .onClose hdl =>
    if s.connectedMux = none then
      some ((s.sets false (.closed hdl)).calls .close (.closeHandler hdl))
    else none
  | .openHandler _ | .closeHandler _ => some { s with connectedMux := none, library := .run }

/-! ### The other threads -/

/-- `m_client.close` closes a connection that is open. -/
def closesSession (s : Client T) : Client T :=
  match s.imp.connectionHdl with
  | none => s
  | some hdl =>
    match s.sessions hdl with
    | some ⟨.open, owed⟩ => s.becomes hdl .closing owed
    | _ => s

/-- Closing changes one session, from open to closing. -/
theorem closesSession_cases (s : Client T) : s.closesSession = s ∨
    ∃ hdl owed, s.imp.connectionHdl = some hdl ∧ s.sessions hdl = some ⟨.open, owed⟩ ∧
      s.closesSession = s.becomes hdl .closing owed := by
  unfold closesSession
  split
  · exact .inl rfl
  · rename_i hdl hhdl
    split
    · exact .inr ⟨hdl, _, hhdl, ‹_›, rfl⟩
    · exact .inl rfl

theorem closesSession_state {s : Client T} {hdl : Nat} (hhdl : s.imp.connectionHdl = some hdl) :
    s.closesSession.state hdl ≠ some .open := by
  unfold closesSession
  simp only [hhdl]
  split
  · simp
  · rename_i hnot
    intro hstate
    obtain ⟨⟨state, owed⟩, hsession, rfl⟩ := Option.map_eq_some_iff.mp hstate
    exact hnot owed hsession

@[simp] theorem closesSession_imp (s : Client T) : s.closesSession.imp = s.imp := by
  obtain heq | ⟨_, _, _, _, heq⟩ := s.closesSession_cases <;> rw [heq]
  rfl

@[simp] theorem closesSession_library (s : Client T) : s.closesSession.library = s.library := by
  obtain heq | ⟨_, _, _, _, heq⟩ := s.closesSession_cases <;> rw [heq]
  rfl

@[simp] theorem closesSession_connectedMux (s : Client T) :
    s.closesSession.connectedMux = s.connectedMux := by
  obtain heq | ⟨_, _, _, _, heq⟩ := s.closesSession_cases <;> rw [heq]
  rfl

@[simp] theorem closesSession_trace (s : Client T) : s.closesSession.trace = s.trace := by
  obtain heq | ⟨_, _, _, _, heq⟩ := s.closesSession_cases <;> rw [heq]
  rfl

variable [DecidableEq T]

def goesTo (s : Client T) (t : T) (pc : ThreadPc) : Client T :=
  { s with threads := Function.update s.threads t pc }

section GoesTo

variable (s : Client T) (t : T) (pc : ThreadPc)

@[simp] theorem goesTo_imp : (s.goesTo t pc).imp = s.imp := rfl

@[simp] theorem goesTo_sessions : (s.goesTo t pc).sessions = s.sessions := rfl

@[simp] theorem goesTo_library : (s.goesTo t pc).library = s.library := rfl

@[simp] theorem goesTo_connectedMux : (s.goesTo t pc).connectedMux = s.connectedMux := rfl

@[simp] theorem goesTo_trace : (s.goesTo t pc).trace = s.trace := rfl

end GoesTo

/-- Thread `t` can lock `m_connectedMux`. -/
def CanLock (s : Client T) (t : T) : Prop := s.threads t = .idle ∧ s.connectedMux = none

instance (s : Client T) (t : T) : Decidable (s.CanLock t) := inferInstanceAs (Decidable (_ ∧ _))

/-- `connect`, up to the wait. -/
def connects (s : Client T) (t : T) (con : Option Nat) : Option (Client T) :=
  if s.imp.connected then some s
  else
    match con with
    | none => some s
    | some hdl =>
      if s.sessions hdl = none then
        some { (s.becomes hdl .connecting []).goesTo t (.connect hdl .test) with
          connectedMux := some (.thread t) }
      else none

def resumes (s : Client T) (t : T) : Option (Client T) :=
  match s.threads t with
  | .idle => none
  | .connect hdl .test =>
    match s.state hdl with
    | none => none
    | some .connecting => some (s.goesTo t (.connect hdl .block))
    | some state =>
      some { s.goesTo t .idle with
        connectedMux := none, trace := s.trace ++ [.returned hdl state] }
  | .connect hdl .block =>
    some { s.goesTo t (.connect hdl .blocked) with connectedMux := none }
  | .connect _ .blocked => none
  | .connect hdl .relock =>
    if s.connectedMux = none then
      some { s.goesTo t (.connect hdl .test) with connectedMux := some (.thread t) }
    else none

def step (s : Client T) : Action T → Option (Client T)
  | .connect t con => if s.CanLock t then s.connects t con else none
  | .close t => if s.CanLock t then some (s.closesSession.sets false .close) else none
  | .resume t => s.resumes t
  | .wakes t => some (s.goesTo t (s.threads t).notified)
  | .register handler registered =>
    some { s with imp := { s.imp with
      registered := Function.update s.imp.registered handler registered } }
  | .succeeds hdl => s.succeeds hdl
  | .fails hdl => s.fails hdl
  | .ends hdl => s.ends hdl
  | .callback hdl => s.callback hdl
  | .library => s.works

/-! ### All that a step can do -/

inductive Steps (s : Client T) : Action T → Client T → Prop
  | connects {t : T} {hdl : Nat} (hlock : s.CanLock t) (hconnected : s.imp.connected = false)
      (hnew : s.sessions hdl = none) :
      Steps s (.connect t (some hdl))
        { (s.becomes hdl .connecting []).goesTo t (.connect hdl .test) with
          connectedMux := some (.thread t) }
  | connectsNot {t : T} {con : Option Nat} : Steps s (.connect t con) s
  | closes {t : T} (hlock : s.CanLock t) :
      Steps s (.close t) (s.closesSession.sets false .close)
  | blocks {t : T} {hdl : Nat} (hthread : s.threads t = .connect hdl .test)
      (hstate : s.state hdl = some .connecting) :
      Steps s (.resume t) (s.goesTo t (.connect hdl .block))
  | returns {t : T} {hdl : Nat} {state : SessionState}
      (hthread : s.threads t = .connect hdl .test) (hstate : s.state hdl = some state)
      (hover : state ≠ .connecting) :
      Steps s (.resume t)
        { s.goesTo t .idle with connectedMux := none, trace := s.trace ++ [.returned hdl state] }
  | sleeps {t : T} {hdl : Nat} (hthread : s.threads t = .connect hdl .block) :
      Steps s (.resume t) { s.goesTo t (.connect hdl .blocked) with connectedMux := none }
  | retests {t : T} {hdl : Nat} (hthread : s.threads t = .connect hdl .relock)
      (hmux : s.connectedMux = none) :
      Steps s (.resume t)
        { s.goesTo t (.connect hdl .test) with connectedMux := some (.thread t) }
  | wakes {t : T} : Steps s (.wakes t) (s.goesTo t (s.threads t).notified)
  | registers {handler : Handler} {registered : Bool} :
      Steps s (.register handler registered)
        { s with imp := { s.imp with
          registered := Function.update s.imp.registered handler registered } }
  | succeeds {hdl : Nat} {owed : List Callback}
      (hsession : s.sessions hdl = some ⟨.connecting, owed⟩) :
      Steps s (.succeeds hdl) (s.becomes hdl .open (owed ++ [.open]))
  | fails {hdl : Nat} {owed : List Callback}
      (hsession : s.sessions hdl = some ⟨.connecting, owed⟩) :
      Steps s (.fails hdl) (s.becomes hdl .closed (owed ++ [.fail]))
  | ends {hdl : Nat} {state : SessionState} {owed : List Callback}
      (hstate : state = .open ∨ state = .closing) (hsession : s.sessions hdl = some ⟨state, owed⟩) :
      Steps s (.ends hdl) (s.becomes hdl .closed (owed ++ [.close]))
  | begins {hdl : Nat} {state : SessionState} {cb : Callback} {owed : List Callback}
      (hlibrary : s.library = .run) (hsession : s.sessions hdl = some ⟨state, cb :: owed⟩) :
      Steps s (.callback hdl) ((s.becomes hdl state owed).begins hdl cb)
  | opens {hdl : Nat} (hlibrary : s.library = .onOpen hdl) (hmux : s.connectedMux = none) :
      Steps s .library ((s.sets true (.opened hdl)).calls .open (.openHandler hdl))
  | failed {hdl : Nat} (hlibrary : s.library = .onFail hdl) (hmux : s.connectedMux = none) :
      Steps s .library { s.sets false (.failed hdl) with library := .run }
  | closed {hdl : Nat} (hlibrary : s.library = .onClose hdl) (hmux : s.connectedMux = none) :
      Steps s .library ((s.sets false (.closed hdl)).calls .close (.closeHandler hdl))
  | handled {hdl : Nat} (hlibrary : s.library = .openHandler hdl ∨ s.library = .closeHandler hdl) :
      Steps s .library { s with connectedMux := none, library := .run }

theorem connects_cases {s s' : Client T} {t : T} {con : Option Nat} (hlock : s.CanLock t)
    (h : s.connects t con = some s') : s.Steps (.connect t con) s' := by
  cases con with
  | none =>
      simp only [connects, ite_self, Option.some.injEq] at h
      exact h ▸ .connectsNot
  | some hdl =>
      simp only [connects] at h
      split_ifs at h with hconnected hnew
      · cases h
        exact .connectsNot
      · cases h
        exact .connects hlock (eq_false_of_ne_true hconnected) hnew

theorem resume_cases {s s' : Client T} {t : T} (h : s.resumes t = some s') :
    s.Steps (.resume t) s' := by
  cases hthread : s.threads t with
  | idle => simp [resumes, hthread] at h
  | connect hdl w =>
      cases w with
      | test =>
          cases hstate : s.state hdl with
          | none => simp [resumes, hthread, hstate] at h
          | some state =>
              cases state with
              | connecting =>
                  simp only [resumes, hthread, hstate, Option.some.injEq] at h
                  exact h ▸ .blocks hthread hstate
              | «open» | closing | closed =>
                  simp only [resumes, hthread, hstate, Option.some.injEq] at h
                  exact h ▸ .returns hthread hstate (by simp)
      | block =>
          simp only [resumes, hthread, Option.some.injEq] at h
          exact h ▸ .sleeps hthread
      | blocked => simp [resumes, hthread] at h
      | relock =>
          simp only [resumes, hthread] at h
          split_ifs at h with hmux
          cases h
          exact .retests hthread hmux

omit [DecidableEq T] in
theorem callback_cases {s s' : Client T} {hdl : Nat} (h : s.callback hdl = some s') :
    ∃ state cb owed, s.library = .run ∧ s.sessions hdl = some ⟨state, cb :: owed⟩ ∧
      s' = (s.becomes hdl state owed).begins hdl cb := by
  rw [callback] at h
  split at h
  · rename_i hlibrary hsession
    exact ⟨_, _, _, hlibrary, hsession, (Option.some.inj h).symm⟩
  · cases h

theorem work_cases {s s' : Client T} (h : s.works = some s') : s.Steps .library s' := by
  rw [works] at h
  cases hlibrary : s.library with
  | run => simp [hlibrary] at h
  | onOpen hdl =>
      simp only [hlibrary] at h
      split_ifs at h with hmux
      cases h
      exact .opens hlibrary hmux
  | onFail hdl =>
      simp only [hlibrary] at h
      split_ifs at h with hmux
      cases h
      exact .failed hlibrary hmux
  | onClose hdl =>
      simp only [hlibrary] at h
      split_ifs at h with hmux
      cases h
      exact .closed hlibrary hmux
  | openHandler hdl =>
      simp only [hlibrary, Option.some.injEq] at h
      exact h ▸ .handled (.inl hlibrary)
  | closeHandler hdl =>
      simp only [hlibrary, Option.some.injEq] at h
      exact h ▸ .handled (.inr hlibrary)

theorem step_cases {s s' : Client T} {a : Action T} (h : s.step a = some s') : s.Steps a s' := by
  cases a with
  | connect t con =>
      rw [step] at h
      split_ifs at h with hlock
      exact connects_cases hlock h
  | close t =>
      rw [step] at h
      split_ifs at h with hlock
      cases h
      exact .closes hlock
  | resume t => exact resume_cases h
  | wakes t =>
      cases h
      exact .wakes
  | register handler registered =>
      cases h
      exact .registers
  | succeeds hdl =>
      rw [step, succeeds] at h
      split at h
      · cases h
        exact .succeeds ‹_›
      · cases h
  | fails hdl =>
      rw [step, fails] at h
      split at h
      · cases h
        exact .fails ‹_›
      · cases h
  | ends hdl =>
      rw [step, ends] at h
      split at h
      · cases h
        exact .ends (.inl rfl) ‹_›
      · cases h
        exact .ends (.inr rfl) ‹_›
      · cases h
  | callback hdl =>
      obtain ⟨state, cb, owed, hlibrary, hsession, rfl⟩ := callback_cases h
      exact .begins hlibrary hsession
  | library => exact work_cases h

end Client

end Shapeware.WebsocketClient
