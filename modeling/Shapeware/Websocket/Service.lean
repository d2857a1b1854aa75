import Shapeware.Cxx
import Shapeware.Library.Runs

/-!
# The websocket service

One server thread runs the endpoint of websocketpp and delivers the events of the connections one
after another; it looks up the connection in `m_connectionsStrMap` under `m_mux` and then calls the
handlers of the application without it. Any other thread may send messages, and start or stop the
service. Each access to the map is one step, also the traversal by which `sendMessage` finds out
where to send.

The event loop of asio works as long as there is work: an acceptor that listens, or an open
connection. Once it has run out of work it is stopped for good, as nobody resets the endpoint.
-/

namespace Shapeware.Websocket

/-- A connection of websocketpp: where its handle comes in the order of `std::owner_less`, and the
address of the connection object. -/
structure Connection where
  handle : Nat
  address : Nat
deriving DecidableEq

/-- How `std::ostream` prints a pointer. -/
structure PointerFormat where
  print : Nat → StdString
  injective : Function.Injective print
  ne_nil : ∀ address, print address ≠ []

def hexDigit (d : Nat) : UInt8 := if d < 10 then UInt8.ofNat (48 + d) else UInt8.ofNat (87 + d)

def hexValue (char : UInt8) : Nat := if char.toNat < 58 then char.toNat - 48 else char.toNat - 87

theorem hexValue_hexDigit : ∀ d < 16, hexValue (hexDigit d) = d := by decide

/-- The usual format: `0x` and the hexadecimal digits. -/
def hexFormat : PointerFormat where
  print address := 48 :: 120 :: ((Nat.digits 16 address).map hexDigit).reverse
  injective := by
    intro address address' heq
    have hdigits : (Nat.digits 16 address).map hexDigit = (Nat.digits 16 address').map hexDigit := by
      simpa using heq
    have hvalues (n : Nat) : ((Nat.digits 16 n).map hexDigit).map hexValue = Nat.digits 16 n := by
      rw [List.map_map]
      refine (List.map_congr_left fun d hd => ?_).trans (List.map_id _)
      exact hexValue_hexDigit d (Nat.digits_lt_base (by norm_num) hd)
    apply Nat.digits_inj_iff.mp
    rw [← hvalues address, hdigits, hvalues address']
  ne_nil _ := List.cons_ne_nil _ _

inductive Handler
  | message
  | messageStr
  | open
  | close
deriving DecidableEq

/-- A call of a handler of the application. -/
inductive Call
  | message (vmsg : List UInt8) (connId : StdString)
  | messageStr (msg : StdString) (connId : StdString)
  | open (connId : StdString)
  | close (connId : StdString)
deriving DecidableEq

def Call.handler : Call → Handler
  | .message .. => .message
  | .messageStr .. => .messageStr
  | .open _ => .open
  | .close _ => .close

/-- The data members of `Imp`. The handlers are known by whether they are registered. -/
structure Imp where
  connectionsStrMap : StdMap Nat StdString := ∅
  runThd : Bool := false
  registered : Handler → Bool := fun _ => false

namespace Imp

def getConnId (s : Imp) (hdl : Nat) : Option StdString := s.connectionsStrMap[hdl]?

/-- Each of the callbacks comes with the calls it makes, if their handlers are registered by then. -/
def onOpen (s : Imp) (chdl : Nat) (connId : StdString) : Imp × List Call :=
  ({ s with connectionsStrMap := s.connectionsStrMap.insertIfNew chdl connId }, [.open connId])

def onMessage (s : Imp) (hdl : Nat) (msg : StdString) : List Call :=
  match s.getConnId hdl with
  | some connId => [.messageStr msg connId, .message msg connId]
  | none => []

def onClose (s : Imp) (hdl : Nat) : Imp × List Call :=
  ({ s with connectionsStrMap := s.connectionsStrMap.erase hdl },
    ((s.getConnId hdl).map .close).toList)

/-- The handles to which `sendMessage` sends. -/
def sendTo (s : Imp) (connId : StdString) : List Nat :=
  if s.runThd then
    if connId.isEmpty then s.connectionsStrMap.toList.map Prod.fst
    else ((s.connectionsStrMap.toList.find? fun it => it.2 = connId).map Prod.fst).toList
  else []

end Imp

/-- `msg->get_payload().data()`, read up to the first zero. -/
def msgPayload (payload : List UInt8) : StdString := payload.takeWhile (· ≠ 0)

inductive Event
  | open (c : Connection)
  | message (c : Connection) (payload : List UInt8)
  | close (c : Connection)
  | called (c : Connection) (call : Call)
  | sent (hdl : Nat) (msg : StdString)
deriving DecidableEq

/-- The server thread tests `m_runThd`, is inside of `run` between two events, about to call a
handler, inside of a handler, or at its end. -/
inductive ServerPc
  | loop
  | run
  | calling (c : Connection) (call : Call) (rest : List Call)
  | inside (c : Connection) (call : Call) (rest : List Call)
  | ended
deriving DecidableEq

/-- The server thread has these calls to make. -/
def ServerPc.goOn (c : Connection) : List Call → ServerPc
  | [] => .run
  | call :: rest => .calling c call rest

/-- Where a thread is that has called `stop`. -/
inductive ThreadPc
  | idle
  | stopListening
  | copy
  | close (connections : List Nat)
  | clear
  | join
deriving DecidableEq

structure Service (T : Type) where
  imp : Imp
  listening : Bool
  /-- The event loop has run out of work. -/
  stopped : Bool
  joinable : Bool
  server : ServerPc
  threads : T → ThreadPc
  trace : List Event

inductive Action (T : Type)
  | open (c : Connection)
  | message (c : Connection) (payload : List UInt8)
  | close (c : Connection)
  /-- The server thread calls a handler, or returns from it. -/
  | server
  /-- `run` returns for lack of work. -/
  | serverReturns
  /-- A `websocketpp::exception` comes out of `run`. -/
  | serverThrows
  /-- The server thread tests `m_runThd` and calls `run` again. -/
  | serverLoops
  | sendMessage (msg connId : StdString)
  | register (handler : Handler) (registered : Bool)
  /-- `listen` can throw. -/
  | start (t : T) (listens : Bool)
  | stop (t : T)
  /-- The next step of a thread in `stop`. -/
  | resume (t : T)
deriving DecidableEq

def openedConnections (trace : List Event) : List Connection :=
  trace.filterMap fun
    | .open c => some c
    | _ => none

def closedConnections (trace : List Event) : List Connection :=
  trace.filterMap fun
    | .close c => some c
    | _ => none

/-- The connections that were opened and are not yet closed. -/
def openConnections (trace : List Event) : List Connection :=
  (openedConnections trace).filter fun c => c ∉ closedConnections trace

namespace Service

variable {T : Type}

/-- A service that was not yet started, with all handlers registered. -/
def created : Service T :=
  { imp := { registered := fun _ => true }, listening := false, stopped := false, joinable := false
    server := .ended, threads := fun _ => .idle, trace := [] }

/-- A service that was started with all handlers registered. -/
def started : Service T :=
  { imp := { runThd := true, registered := fun _ => true }, listening := true, stopped := false
    joinable := true, server := .run, threads := fun _ => .idle, trace := [] }

/-- An event of a connection, which the server thread handles with the calls that are left to make. -/
def handles (s : Service T) (e : Event) (c : Connection) (r : Imp × List Call) : Service T :=
  { s with imp := r.1, server := .goOn c r.2, trace := s.trace ++ [e] }

@[simp] theorem handles_trace (s : Service T) (e : Event) (c : Connection) (r : Imp × List Call) :
    (s.handles e c r).trace = s.trace ++ [e] := rfl

@[simp] theorem handles_server (s : Service T) (e : Event) (c : Connection)
    (r : Imp × List Call) : (s.handles e c r).server = .goOn c r.2 := rfl

@[simp] theorem handles_imp (s : Service T) (e : Event) (c : Connection) (r : Imp × List Call) :
    (s.handles e c r).imp = r.1 := rfl

def serves (s : Service T) : Option (Service T) :=
  match s.server with
  | .calling c call rest =>
    some <| if s.imp.registered call.handler then
      { s with server := .inside c call rest, trace := s.trace ++ [.called c call] }
    else { s with server := .goOn c rest }
  | .inside c _ rest => some { s with server := .goOn c rest }
  | .loop | .run | .ended => none

/-- `while (m_runThd) { m_server->run(); }`, where a stopped event loop returns at once. -/
def loops (s : Service T) : Option (Service T) :=
  if s.server = .loop then
    some <| if s.imp.runThd then if s.stopped then s else { s with server := .run }
      else { s with server := .ended }
  else none

def sends (s : Service T) (msg connId : StdString) : Service T :=
  { s with trace := s.trace ++ (s.imp.sendTo connId).map (.sent · msg) }

variable [DecidableEq T]

def goesTo (s : Service T) (t : T) (pc : ThreadPc) : Service T :=
  { s with threads := Function.update s.threads t pc }

/-- Assigning to `m_thd` while it is joinable ends the program. -/
def starts (s : Service T) (listens : Bool) : Option (Service T) :=
  let s := { s with listening := s.listening || listens }
  if s.imp.runThd then some s
  else if s.joinable then none
  else some { s with imp := { s.imp with runThd := true }, joinable := true, server := .loop }

def stops (s : Service T) (t : T) : Service T :=
  if s.imp.runThd then { s with imp := { s.imp with runThd := false } }.goesTo t .stopListening
  else s

def resumes (s : Service T) (t : T) : Option (Service T) :=
  match s.threads t with
  | .stopListening => some { s.goesTo t .copy with listening := false }
  | .copy => some (s.goesTo t (.close (s.imp.connectionsStrMap.toList.map Prod.fst)))
  | .close (_ :: connections) => some (s.goesTo t (.close connections))
  | .close [] => some (s.goesTo t .clear)
  | .clear => some { s.goesTo t .join with imp := { s.imp with connectionsStrMap := ∅ } }
  | .join =>
    if s.joinable then
      if s.server = .ended then some { s.goesTo t .idle with joinable := false } else none
    else some (s.goesTo t .idle)
  | .idle => none

def step (F : PointerFormat) (s : Service T) : Action T → Option (Service T)
  | .open c =>
    if s.server = .run then
      some (s.handles (.open c) c (s.imp.onOpen c.handle (F.print c.address)))
    else none
  | .message c payload =>
    if s.server = .run then
      some (s.handles (.message c payload) c (s.imp, s.imp.onMessage c.handle (msgPayload payload)))
    else none
  | .close c =>
    if s.server = .run then some (s.handles (.close c) c (s.imp.onClose c.handle)) else none
  | .server => s.serves
  | .serverReturns =>
    if s.server = .run ∧ s.listening = false ∧ openConnections s.trace = [] then
      some { s with server := .loop, stopped := true }
    else none
  | .serverThrows => if s.server = .run then some { s with server := .loop } else none
  | .serverLoops => s.loops
  | .sendMessage msg connId => some (s.sends msg connId)
  | .register handler registered =>
    some { s with imp := { s.imp with
      registered := Function.update s.imp.registered handler registered } }
  | .start t listens => if s.threads t = .idle then s.starts listens else none
  | .stop t => if s.threads t = .idle then some (s.stops t) else none
  | .resume t => s.resumes t

/-! ### Assumptions on websocketpp and on the application -/

/-- Handles of different connections differ, connections that are open at the same time have
different addresses, and only an open connection has messages and is closed. -/
def FromWebsocketpp (s : Service T) : Action T → Prop
  | .open c => c.handle ∉ (openedConnections s.trace).map Connection.handle ∧
      c.address ∉ (openConnections s.trace).map Connection.address
  | .message c _ | .close c => c ∈ openConnections s.trace
  | _ => True

instance (s : Service T) (a : Action T) : Decidable (s.FromWebsocketpp a) :=
  match a with
  | .open _ => inferInstanceAs (Decidable (_ ∧ _))
  | .message _ _ | .close _ => inferInstanceAs (Decidable (_ ∈ _))
  | .server | .serverReturns | .serverThrows | .serverLoops | .sendMessage _ _ | .register _ _
  | .start _ _ | .stop _ | .resume _ => isTrue trivial

/-- `start` and `stop` are called one after the other. -/
def InSequence (s : Service T) : Action T → Prop
  | .start _ _ | .stop _ => ∀ t, s.threads t = .idle
  | _ => True

instance [Fintype T] (s : Service T) (a : Action T) : Decidable (s.InSequence a) :=
  match a with
  | .start _ _ | .stop _ => inferInstanceAs (Decidable (∀ t, s.threads t = .idle))
  | .open _ | .message _ _ | .close _ | .server | .serverReturns | .serverThrows | .serverLoops
  | .sendMessage _ _ | .register _ _ | .resume _ => isTrue trivial

end Service

/-- Nobody takes a handler away. -/
def KeepsHandlers {T : Type} (a : Action T) : Prop := ∀ handler, a ≠ .register handler false

instance {T : Type} (a : Action T) : Decidable (KeepsHandlers a) :=
  match a with
  | .register handler registered =>
    decidable_of_iff (registered = true) (by cases registered <;> simp [KeepsHandlers])
  | .open _ | .message _ _ | .close _ | .server | .serverReturns | .serverThrows | .serverLoops
  | .sendMessage _ _ | .start _ _ | .stop _ | .resume _ => isTrue (by simp [KeepsHandlers])

/-- Nobody stops the service or takes a handler away. -/
def KeepsServing {T : Type} (a : Action T) : Prop :=
  (∀ t, a ≠ .stop t) ∧ ∀ handler, a ≠ .register handler false

instance {T : Type} (a : Action T) : Decidable (KeepsServing a) :=
  match a with
  | .stop t => isFalse fun h => h.1 t rfl
  | .register handler registered =>
    decidable_of_iff (registered = true) (by cases registered <;> simp [KeepsServing])
  | .open _ | .message _ _ | .close _ | .server | .serverReturns | .serverThrows | .serverLoops
  | .sendMessage _ _ | .start _ _ | .resume _ => isTrue (by simp [KeepsServing])

namespace Service

variable {T : Type}

/-! ### Conditions on single steps -/

/-- When `stop` clears the map, all its connections have been closed. -/
def ClearsNothing (s : Service T) (a : Action T) : Prop :=
  ∀ t, a = .resume t → s.threads t = .clear → s.imp.connectionsStrMap = ∅

instance (s : Service T) (a : Action T) : Decidable (s.ClearsNothing a) :=
  match a with
  | .resume t =>
    decidable_of_iff (s.threads t = .clear → s.imp.connectionsStrMap.isEmpty = true)
      (by simp [ClearsNothing, Std.ExtTreeMap.isEmpty_iff])
  | .open _ | .message _ _ | .close _ | .server | .serverReturns | .serverThrows | .serverLoops
  | .sendMessage _ _ | .register _ _ | .start _ _ | .stop _ => isTrue (by simp [ClearsNothing])

/-- The address of a connection object is not used again for a later one. -/
def NewAddress (s : Service T) (a : Action T) : Prop :=
  ∀ c, a = .open c → c.address ∉ (openedConnections s.trace).map Connection.address

/-- A service that is not started is started by a `listen` that does not throw, and has an event
loop that was not yet stopped. -/
def StartsListening (s : Service T) (a : Action T) : Prop :=
  ∀ t listens, a = .start t listens → s.imp.runThd = false → listens = true ∧ s.stopped = false

instance (s : Service T) (a : Action T) : Decidable (s.NewAddress a) :=
  match a with
  | .open c =>
    decidable_of_iff (c.address ∉ (openedConnections s.trace).map Connection.address)
      (by simp [NewAddress])
  | .message _ _ | .close _ | .server | .serverReturns | .serverThrows | .serverLoops
  | .sendMessage _ _ | .register _ _ | .start _ _ | .stop _ | .resume _ =>
    isTrue (by simp [NewAddress])

instance (s : Service T) (a : Action T) : Decidable (s.StartsListening a) :=
  match a with
  | .start t listens =>
    decidable_of_iff (s.imp.runThd = false → listens = true ∧ s.stopped = false)
      (by simp [StartsListening])
  | .open _ | .message _ _ | .close _ | .server | .serverReturns | .serverThrows | .serverLoops
  | .sendMessage _ _ | .register _ _ | .stop _ | .resume _ => isTrue (by simp [StartsListening])

variable [DecidableEq T]

/-- All that a step can do. -/
inductive Steps (F : PointerFormat) (s : Service T) : Action T → Service T → Prop
  | open {c : Connection} (hserver : s.server = .run) :
      Steps F s (.open c) (s.handles (.open c) c (s.imp.onOpen c.handle (F.print c.address)))
  | message {c : Connection} {payload : List UInt8} (hserver : s.server = .run) :
      Steps F s (.message c payload)
        (s.handles (.message c payload) c (s.imp, s.imp.onMessage c.handle (msgPayload payload)))
  | close {c : Connection} (hserver : s.server = .run) :
      Steps F s (.close c) (s.handles (.close c) c (s.imp.onClose c.handle))
  | calls {c : Connection} {call : Call} {rest : List Call}
      (hserver : s.server = .calling c call rest) (hcall : s.imp.registered call.handler = true) :
      Steps F s .server
        { s with server := .inside c call rest, trace := s.trace ++ [.called c call] }
  | skips {c : Connection} {call : Call} {rest : List Call}
      (hserver : s.server = .calling c call rest) (hcall : s.imp.registered call.handler = false) :
      Steps F s .server { s with server := .goOn c rest }
  | returns {c : Connection} {call : Call} {rest : List Call}
      (hserver : s.server = .inside c call rest) : Steps F s .server { s with server := .goOn c rest }
  | runReturns (hserver : s.server = .run) (hlistening : s.listening = false)
      (hnone : openConnections s.trace = []) :
      Steps F s .serverReturns { s with server := .loop, stopped := true }
  | runThrows (hserver : s.server = .run) : Steps F s .serverThrows { s with server := .loop }
  | runs (hserver : s.server = .loop) (hrun : s.imp.runThd = true) (hstopped : s.stopped = false) :
      Steps F s .serverLoops { s with server := .run }
  | spins (hserver : s.server = .loop) (hrun : s.imp.runThd = true) (hstopped : s.stopped = true) :
      Steps F s .serverLoops s
  | ends (hserver : s.server = .loop) (hrun : s.imp.runThd = false) :
      Steps F s .serverLoops { s with server := .ended }
  | sends {msg connId : StdString} : Steps F s (.sendMessage msg connId) (s.sends msg connId)
  | registers {handler : Handler} {registered : Bool} :
      Steps F s (.register handler registered)
        { s with imp := { s.imp with
          registered := Function.update s.imp.registered handler registered } }
  | startsAgain {t : T} {listens : Bool} (hrun : s.imp.runThd = true) :
      Steps F s (.start t listens) { s with listening := s.listening || listens }
  | starts {t : T} {listens : Bool} (hrun : s.imp.runThd = false) (hjoinable : s.joinable = false) :
      Steps F s (.start t listens)
        { s with
          listening := s.listening || listens, imp := { s.imp with runThd := true }
          joinable := true, server := .loop }
  | stops {t : T} (hidle : s.threads t = .idle) (hrun : s.imp.runThd = true) :
      Steps F s (.stop t) ({ s with imp := { s.imp with runThd := false } }.goesTo t .stopListening)
  | stopsAlready {t : T} (hrun : s.imp.runThd = false) : Steps F s (.stop t) s
  | stopsListening {t : T} (hthread : s.threads t = .stopListening) :
      Steps F s (.resume t) { s.goesTo t .copy with listening := false }
  | copies {t : T} (hthread : s.threads t = .copy) :
      Steps F s (.resume t) (s.goesTo t (.close (s.imp.connectionsStrMap.toList.map Prod.fst)))
  | closes {t : T} {hdl : Nat} {connections : List Nat}
      (hthread : s.threads t = .close (hdl :: connections)) :
      Steps F s (.resume t) (s.goesTo t (.close connections))
  | closedAll {t : T} (hthread : s.threads t = .close []) : Steps F s (.resume t) (s.goesTo t .clear)
  | clears {t : T} (hthread : s.threads t = .clear) :
      Steps F s (.resume t)
        { s.goesTo t .join with imp := { s.imp with connectionsStrMap := ∅ } }
  | joins {t : T} (hthread : s.threads t = .join) (hended : s.server = .ended) :
      Steps F s (.resume t) { s.goesTo t .idle with joinable := false }
  | joinsNothing {t : T} (hthread : s.threads t = .join) (hjoinable : s.joinable = false) :
      Steps F s (.resume t) (s.goesTo t .idle)

theorem resume_cases {F : PointerFormat} {s s' : Service T} {t : T}
    (h : s.resumes t = some s') : s.Steps F (.resume t) s' := by
  cases hthread : s.threads t with
  | idle => simp [resumes, hthread] at h
  | stopListening =>
      simp only [resumes, hthread, Option.some.injEq] at h
      exact h ▸ .stopsListening hthread
  | copy =>
      simp only [resumes, hthread, Option.some.injEq] at h
      exact h ▸ .copies hthread
  | close connections =>
      cases connections with
      | nil =>
          simp only [resumes, hthread, Option.some.injEq] at h
          exact h ▸ .closedAll hthread
      | cons hdl connections =>
          simp only [resumes, hthread, Option.some.injEq] at h
          exact h ▸ .closes hthread
  | clear =>
      simp only [resumes, hthread, Option.some.injEq] at h
      exact h ▸ .clears hthread
  | join =>
      simp only [resumes, hthread] at h
      split_ifs at h with hjoinable hended
      · cases h
        exact .joins hthread hended
      · cases h
        exact .joinsNothing hthread (eq_false_of_ne_true hjoinable)

theorem step_cases {F : PointerFormat} {s s' : Service T} {a : Action T}
    (h : s.step F a = some s') : s.Steps F a s' := by
  cases a with
  | «open» c =>
      rw [step] at h
      split_ifs at h with hserver
      cases h
      exact .open hserver
  | message c payload =>
      rw [step] at h
      split_ifs at h with hserver
      cases h
      exact .message hserver
  | close c =>
      rw [step] at h
      split_ifs at h with hserver
      cases h
      exact .close hserver
  | server =>
      rw [step, serves] at h
      cases hserver : s.server with
      | loop | run | ended => simp [hserver] at h
      | calling c call rest =>
          simp only [hserver, Option.some.injEq] at h
          subst h
          split_ifs with hcall
          · exact .calls hserver hcall
          · exact .skips hserver (eq_false_of_ne_true hcall)
      | inside c call rest =>
          simp only [hserver, Option.some.injEq] at h
          subst h
          exact .returns hserver
  | serverReturns =>
      rw [step] at h
      split_ifs at h with hends
      cases h
      exact .runReturns hends.1 hends.2.1 hends.2.2
  | serverThrows =>
      rw [step] at h
      split_ifs at h with hserver
      cases h
      exact .runThrows hserver
  | serverLoops =>
      rw [step, loops] at h
      split_ifs at h with hserver hrun hstopped
      · cases h
        exact .spins hserver hrun hstopped
      · cases h
        exact .runs hserver hrun (eq_false_of_ne_true hstopped)
      · cases h
        exact .ends hserver (eq_false_of_ne_true hrun)
  | sendMessage msg connId =>
      cases h
      exact .sends
  | register handler registered =>
      cases h
      exact .registers
  | start t listens =>
      rw [step] at h
      split_ifs at h with hidle
      rw [starts] at h
      split_ifs at h with hrun hjoinable
      · cases h
        exact .startsAgain hrun
      · cases h
        exact .starts (eq_false_of_ne_true hrun) (eq_false_of_ne_true hjoinable)
  | stop t =>
      rw [step] at h
      split_ifs at h with hidle
      rw [stops] at h
      split_ifs at h with hrun
      · cases h
        exact .stops hidle hrun
      · cases h
        exact .stopsAlready (eq_false_of_ne_true hrun)
  | resume t => exact resume_cases h

end Service

end Shapeware.Websocket
