import Shapeware.Library.Alternation
import Shapeware.ZeroMq.WorkerRep
import Shapeware.ZeroMq.WorkerReq

/-!
# The sockets are used in lockstep

A REQ socket must send and receive in turns, and so must a REP socket, which begins by receiving.
Each worker knows at every point whose turn it is on its current socket, or is done with it: after a
timeout, an exception or a request to close it never touches the old socket's lockstep again.
-/

namespace Shapeware.ZeroMq

open Alternation Stepped

inductive Turn
  | send
  | recv
deriving DecidableEq

def Turn.other : Turn → Turn
  | .send => .recv
  | .recv => .send

/-- The turn that an operation takes on a socket, also if it throws. -/
def Event.turnOn (socket : Nat) : Event → Option Turn
  | .socketOp n (.send _) _ => if n = socket then some .send else none
  | .socketOp n .recv _ => if n = socket then some .recv else none
  | _ => none

/-- The turns taken on a socket. -/
def turns (socket : Nat) (trace : List Event) : List Turn := trace.filterMap (Event.turnOn socket)

/-- A worker whose program points say whose turn it is on the current socket, if the socket is still
to be used. -/
structure Lockstep {W : Type} (P : Program W) (first : Turn) where
  socket : W → Nat
  due : Imp → W → Option Turn
  due_start : ∀ imp, due imp P.start = none
  socket_notified : ∀ w, socket (P.notified w) = socket w
  due_notified : ∀ imp w, due imp (P.notified w) = due imp w
  /-- Other threads can at most make the worker give up its socket. -/
  due_frame : ∀ imp imp' w, (P.holdsMux w = true →
    imp'.requireSocketState = imp.requireSocketState) → (imp'.runThd = true → imp.runThd = true) →
      due imp' w = due imp w ∨ due imp' w = none
  /-- A step takes no turn, takes the turn that is due, or makes a new socket. -/
  step : ∀ imp w outcome r, P.step imp w outcome = some r → outcome ≠ .received none →
    ((∀ e ∈ r.events, ∀ n, e.turnOn n = none) ∧ socket r.worker = socket w ∧
      (due r.imp r.worker = due imp w ∨ due r.imp r.worker = none)) ∨
    (∃ x op threw, due imp w = some x ∧ r.events = [.socketOp (socket w) op threw] ∧
      (Event.socketOp (socket w) op threw).turnOn (socket w) = some x ∧
      socket r.worker = socket w ∧
      (due r.imp r.worker = some x.other ∨ due r.imp r.worker = none)) ∨
    ((∀ e ∈ r.events, ∀ n, e.turnOn n = none) ∧ socket r.worker = socket w + 1 ∧
      (due r.imp r.worker = some first ∨ due r.imp r.worker = none))

/-! ### The two workers -/

def ReqWorker.due (w : ReqWorker) : Option Turn :=
  match w.pc with
  | .setsockopt | .connect | .reportOpened | .waitSend _ | .send _ | .onMessage _ => some .send
  | .poll | .recv => some .recv
  | .checkClose => if w.resetSocket then none else some .send
  | _ => none

def RepWorker.due (s : Imp) (w : RepWorker) : Option Turn :=
  match w.pc with
  | .bind | .reportOpened | .unlock | .poll | .relock _ | .recv => some .recv
  | .onMessage _ | .clearSend | .waitReply _ | .send _ => some .send
  | .checkClose => if s.requireSocketState = .close || !s.runThd then none else some .recv
  | _ => none

def lockstepReq : Lockstep workerReq .send where
  socket w := w.socket
  due _ w := w.due
  due_start _ := rfl
  socket_notified := ReqWorker.socket_notified
  due_notified _ w := by
    obtain ⟨pc, socket, reset⟩ := w
    cases pc <;> rfl
  due_frame _ _ _ _ _ := .inl rfl
  step := by
    rintro imp ⟨pc, socket, reset⟩ outcome r h hout
    cases pc with
    | loop | lock | checkRun =>
        obtain ⟨rfl, rfl⟩ := goes_cases h
        refine .inl ⟨by simp, rfl, .inr ?_⟩
        cases imp.runThd <;> rfl
    | waitOpen wait =>
        obtain ⟨wait', _, rfl, rfl⟩ | ⟨_, _, hdone⟩ := waits_cases h
        · exact .inl ⟨by simp, rfl, .inl rfl⟩
        · obtain ⟨rfl, rfl⟩ := goes_cases hdone
          exact .inl ⟨by simp, rfl, .inl rfl⟩
    | waitSend wait =>
        obtain ⟨wait', _, rfl, rfl⟩ | ⟨_, _, hdone⟩ := waits_cases h
        · exact .inl ⟨by simp, rfl, .inl rfl⟩
        · split_ifs at hdone with hsend
          · obtain ⟨rfl, rfl⟩ := goes_cases hdone
            exact .inl ⟨by simp, rfl, .inl rfl⟩
          · obtain ⟨rfl, rfl⟩ := goes_cases hdone
            refine .inl ⟨by simp, rfl, ?_⟩
            cases reset <;> simp [ReqWorker.due, ReqWorker.goto]
    | create =>
        obtain ⟨rfl, rfl⟩ | ⟨rfl, rfl⟩ := operates_cases h
        · exact .inr (.inr ⟨by simp [Event.turnOn], rfl, .inl rfl⟩)
        · exact .inl ⟨by simp [Event.turnOn], rfl, .inr rfl⟩
    | setsockopt | connect | disconnect | close =>
        obtain ⟨rfl, rfl⟩ | ⟨rfl, rfl⟩ := operates_cases h
        · exact .inl ⟨by simp [Event.turnOn], rfl, .inl rfl⟩
        · exact .inl ⟨by simp [Event.turnOn], rfl, .inr rfl⟩
    | reportOpened | reportClosed =>
        obtain ⟨rfl, rfl⟩ := reports_cases h
        exact .inl ⟨by simp, rfl, .inl rfl⟩
    | send request =>
        obtain ⟨rfl, rfl⟩ | ⟨rfl, rfl⟩ := operates_cases h
        · exact .inr (.inl ⟨.send, _, _, rfl, rfl, by simp [Event.turnOn], rfl, .inl rfl⟩)
        · exact .inr (.inl ⟨.send, _, _, rfl, rfl, by simp [Event.turnOn], rfl, .inr rfl⟩)
    | poll =>
        obtain ⟨input, rfl, rfl⟩ | ⟨rfl, rfl⟩ := polls_cases h
        · refine .inl ⟨by simp [Event.turnOn], rfl, ?_⟩
          cases input <;> simp [ReqWorker.due, ReqWorker.goto]
        · exact .inl ⟨by simp [Event.turnOn], rfl, .inr rfl⟩
    | recv =>
        obtain ⟨reply, rfl, rfl⟩ | ⟨rfl, rfl⟩ := receives_cases h
        · cases reply with
          | none => exact absurd rfl hout
          | some reply =>
              exact .inr (.inl ⟨.recv, _, _, rfl, rfl, by simp [Event.turnOn], rfl, .inl rfl⟩)
        · exact .inr (.inl ⟨.recv, _, _, rfl, rfl, by simp [Event.turnOn], rfl, .inr rfl⟩)
    | onMessage reply =>
        obtain ⟨rfl, rfl⟩ := calls_cases h
        refine .inl ⟨?_, rfl, ?_⟩
        · cases imp.onMessageFunc <;> simp [Event.turnOn]
        · cases reset <;> simp [ReqWorker.due, ReqWorker.goto]
    | onReqTimeout =>
        obtain ⟨rfl, rfl⟩ := calls_cases h
        refine .inl ⟨?_, rfl, .inr rfl⟩
        cases imp.onReqTimeoutFunc <;> simp [Event.turnOn]
    | checkClose =>
        obtain ⟨rfl, rfl⟩ := goes_cases h
        refine .inl ⟨by simp, rfl, ?_⟩
        cases reset with
        | true => exact .inr rfl
        | false =>
            by_cases hclose : (imp.requireSocketState = .close || !imp.runThd) = true
            · exact .inr (by simp [ReqWorker.due, ReqWorker.goto, hclose])
            · exact .inl (by simp [ReqWorker.due, ReqWorker.goto, hclose])
    | finished => cases h

def lockstepRep : Lockstep workerRep .recv where
  socket w := w.socket
  due := RepWorker.due
  due_start _ := rfl
  socket_notified := RepWorker.socket_notified
  due_notified _ w := by
    obtain ⟨pc, socket⟩ := w
    cases pc <;> rfl
  due_frame imp imp' w hstate hrun := by
    obtain ⟨pc, socket⟩ := w
    cases pc with
    | checkClose =>
        have hsame := hstate rfl
        by_cases hclose : (imp'.requireSocketState = .close || !imp'.runThd) = true
        · exact .inr (by simp [RepWorker.due, hclose])
        · have hopen : imp'.requireSocketState ≠ .close ∧ imp'.runThd = true := by
            simpa using hclose
          exact .inl (by simp [RepWorker.due, hsame, hopen.2, hrun hopen.2])
    | _ => exact .inl rfl
  step := by
    rintro imp ⟨pc, socket⟩ outcome r h hout
    cases pc with
    | loop | lock | checkRun =>
        obtain ⟨rfl, rfl⟩ := goes_cases h
        refine .inl ⟨by simp, rfl, .inr ?_⟩
        cases imp.runThd <;> rfl
    | waitOpen wait =>
        obtain ⟨wait', _, rfl, rfl⟩ | ⟨_, _, hdone⟩ := waits_cases h
        · exact .inl ⟨by simp, rfl, .inl rfl⟩
        · obtain ⟨rfl, rfl⟩ := goes_cases hdone
          exact .inl ⟨by simp, rfl, .inl rfl⟩
    | waitReply wait =>
        obtain ⟨wait', _, rfl, rfl⟩ | ⟨_, hpredicate, hdone⟩ := waits_cases h
        · exact .inl ⟨by simp, rfl, .inl rfl⟩
        · split_ifs at hdone with hsend
          · obtain ⟨rfl, rfl⟩ := goes_cases hdone
            exact .inl ⟨by simp, rfl, .inl rfl⟩
          · -- nothing to send: the wait is over because the socket is to be closed
            obtain ⟨rfl, rfl⟩ := goes_cases hdone
            have hclose : (imp.requireSocketState = .close || !imp.runThd) = true := by
              simpa [hsend] using hpredicate
            exact .inl ⟨by simp, rfl, .inr (by simp [RepWorker.due, RepWorker.goto, hclose])⟩
    | create =>
        obtain ⟨rfl, rfl⟩ | ⟨rfl, rfl⟩ := operates_cases h
        · exact .inr (.inr ⟨by simp [Event.turnOn], rfl, .inl rfl⟩)
        · exact .inl ⟨by simp [Event.turnOn], rfl, .inr rfl⟩
    | bind | unbind | close =>
        obtain ⟨rfl, rfl⟩ | ⟨rfl, rfl⟩ := operates_cases h
        · exact .inl ⟨by simp [Event.turnOn], rfl, .inl rfl⟩
        · exact .inl ⟨by simp [Event.turnOn], rfl, .inr rfl⟩
    | reportOpened | reportClosed =>
        obtain ⟨rfl, rfl⟩ := reports_cases h
        exact .inl ⟨by simp, rfl, .inl rfl⟩
    | unlock | clearSend =>
        obtain ⟨rfl, rfl⟩ := goes_cases h
        exact .inl ⟨by simp, rfl, .inl rfl⟩
    | poll =>
        obtain ⟨input, rfl, rfl⟩ | ⟨rfl, rfl⟩ := polls_cases h
        · exact .inl ⟨by simp [Event.turnOn], rfl, .inl rfl⟩
        · exact .inl ⟨by simp [Event.turnOn], rfl, .inr rfl⟩
    | relock input =>
        obtain ⟨rfl, rfl⟩ := goes_cases h
        refine .inl ⟨by simp, rfl, ?_⟩
        by_cases hclose : (imp.requireSocketState = .close || !imp.runThd) = true <;>
          cases input <;> simp [RepWorker.due, RepWorker.goto, hclose]
    | recv =>
        obtain ⟨request, rfl, rfl⟩ | ⟨rfl, rfl⟩ := receives_cases h
        · cases request with
          | none => exact absurd rfl hout
          | some request =>
              exact .inr (.inl ⟨.recv, _, _, rfl, rfl, by simp [Event.turnOn], rfl, .inl rfl⟩)
        · exact .inr (.inl ⟨.recv, _, _, rfl, rfl, by simp [Event.turnOn], rfl, .inr rfl⟩)
    | onMessage request =>
        obtain ⟨rfl, rfl⟩ := calls_cases h
        refine .inl ⟨?_, rfl, .inl rfl⟩
        cases imp.onMessageFunc <;> simp [Event.turnOn]
    | send reply =>
        obtain ⟨rfl, rfl⟩ | ⟨rfl, rfl⟩ := operates_cases h
        · refine .inr (.inl ⟨.send, _, _, rfl, rfl, by simp [Event.turnOn], rfl, ?_⟩)
          by_cases hclose : (imp.requireSocketState = .close || !imp.runThd) = true <;>
            simp [RepWorker.due, RepWorker.goto, Turn.other, hclose]
        · exact .inr (.inl ⟨.send, _, _, rfl, rfl, by simp [Event.turnOn], rfl, .inr rfl⟩)
    | checkClose =>
        obtain ⟨rfl, rfl⟩ := goes_cases h
        refine .inl ⟨by simp, rfl, ?_⟩
        by_cases hclose : (imp.requireSocketState = .close || !imp.runThd) = true <;>
          simp [RepWorker.due, RepWorker.goto, hclose]
    | finished => cases h

/-! ### Runs -/

namespace Lockstep

variable {W T : Type} {P : Program W} {first : Turn} {s s' : Service W T}

/-- The turns taken so far alternate on every socket, and the worker knows whose turn it is. -/
structure Alternating (L : Lockstep P first) (s : Service W T) : Prop where
  alternates : ∀ n, Alternates first first.other (turns n s.trace)
  unused : ∀ n, L.socket s.worker < n → turns n s.trace = []
  due : ∀ x, L.due s.imp s.worker = some x →
    Due first first.other (turns (L.socket s.worker) s.trace) x

theorem turns_append {events : List Event} (h : ∀ e ∈ events, ∀ n, e.turnOn n = none)
    (trace : List Event) (n : Nat) : turns n (trace ++ events) = turns n trace := by
  have hnil : turns n events = [] := List.filterMap_eq_nil_iff.mpr fun e he => h e he n
  rw [turns, List.filterMap_append]
  exact (congrArg _ hnil).trans (List.append_nil _)

theorem turnOn_of_ne {e : Event} {m n : Nat} {x : Turn} (h : e.turnOn m = some x) (hne : n ≠ m) :
    e.turnOn n = none := by
  cases e with
  | socketOp k op threw => cases op <;> grind [Event.turnOn]
  | _ => cases h

theorem turnOn_of_not_isWorkers {e : Event} (h : e.isWorkers = false) (n : Nat) :
    e.turnOn n = none := by
  cases e <;> first | rfl | cases h

theorem Alternating.quiet {L : Lockstep P first} (h : L.Alternating s) {events : List Event}
    (htrace : s'.trace = s.trace ++ events) (hquiet : ∀ e ∈ events, ∀ n, e.turnOn n = none)
    (hsocket : L.socket s'.worker = L.socket s.worker)
    (hdue : L.due s'.imp s'.worker = L.due s.imp s.worker ∨ L.due s'.imp s'.worker = none) :
    L.Alternating s' := by
  have hturns : ∀ n, turns n s'.trace = turns n s.trace := fun n =>
    htrace ▸ turns_append hquiet s.trace n
  refine ⟨fun n => hturns n ▸ h.alternates n, fun n hn => ?_, fun x hx => ?_⟩
  · rw [hturns n]
    exact h.unused n (hsocket ▸ hn)
  · rw [hturns, hsocket]
    obtain hdue | hdue := hdue
    · exact h.due x (hdue.symm.trans hx)
    · rw [hdue] at hx
      cases hx

/-- After the turn that is due it is the turn of the other kind. -/
theorem due_other {l : List Turn} {x : Turn} (h : Due first first.other l x) :
    Due first first.other (l ++ [x]) x.other := by
  cases first <;> cases x <;> first | exact h.first | exact h.second

theorem Alternating.works {L : Lockstep P first} (h : L.Alternating s) {outcome : Outcome}
    {r : Stepped W} (hwork : P.step s.imp s.worker outcome = some r)
    (hout : outcome ≠ .received none) : L.Alternating (s.works r) := by
  obtain ⟨hquiet, hsocket, hdue⟩ | ⟨x, op, threw, hx, hevents, hturn, hsocket, hdue⟩ |
    ⟨hquiet, hsocket, hdue⟩ := L.step _ _ _ _ hwork hout
  · exact h.quiet rfl hquiet hsocket hdue
  · -- the turn that is due is taken on the current socket, and nothing happens on the others
    have hturns : turns (L.socket s.worker) (s.works r).trace
        = turns (L.socket s.worker) s.trace ++ [x] := by
      simp [Service.works, turns, hevents, hturn]
    have hothers : ∀ n, n ≠ L.socket s.worker → turns n (s.works r).trace = turns n s.trace := by
      intro n hn
      simp [Service.works, turns, hevents, turnOn_of_ne hturn hn]
    have hnow := h.due x hx
    refine ⟨fun n => ?_, fun n hn => ?_, fun y hy => ?_⟩
    · by_cases hn : n = L.socket s.worker
      · rw [hn, hturns]
        exact hnow
      · rw [hothers n hn]
        exact h.alternates n
    · have hlt : L.socket s.worker < n := hsocket ▸ hn
      rw [hothers n hlt.ne']
      exact h.unused n hlt
    · obtain hdue | hdue := hdue
      · obtain rfl := Option.some.inj (hdue.symm.trans hy)
        rw [show L.socket (s.works r).worker = L.socket s.worker from hsocket, hturns]
        exact due_other hnow
      · cases hdue.symm.trans hy
  · -- on a new socket the first turn is due
    have hturns : ∀ n, turns n (s.works r).trace = turns n s.trace :=
      fun n => turns_append hquiet s.trace n
    have hnew : L.socket (s.works r).worker = L.socket s.worker + 1 := hsocket
    refine ⟨fun n => hturns n ▸ h.alternates n, fun n hn => ?_, fun y hy => ?_⟩
    · rw [hturns n]
      exact h.unused n (by omega)
    · obtain hdue | hdue := hdue
      · obtain rfl := Option.some.inj (hdue.symm.trans hy)
        rw [hnew, hturns, h.unused _ (Nat.lt_succ_self _)]
        exact due_nil
      · cases hdue.symm.trans hy

theorem alternating [DecidableEq T] (L : Lockstep P first)
    (h : Runs.Reachable (Service.step P) (fun _ a => RecvReturns a)
      (Service.init P : Service W T) s) : L.Alternating s := by
  refine h.invariant L.Alternating ?_ ?_
  · refine ⟨fun _ => trivial, fun _ _ => rfl, fun x hx => ?_⟩
    cases (L.due_start _).symm.trans hx
  · intro s a s' hinv hreturns hstep
    by_cases hworker : ∃ outcome, a = .worker outcome
    · obtain ⟨outcome, rfl⟩ := hworker
      have hout : outcome ≠ .received none := fun hnone => hreturns (hnone ▸ rfl)
      cases Service.step_cases hstep with
      | works hwork => exact hinv.works hwork hout
    · have hframe := (Service.step_cases hstep).frame fun outcome ha => hworker ⟨outcome, ha⟩
      obtain ⟨events, htrace, hevents⟩ := hframe.trace
      have hdue := L.due_frame s.imp s'.imp s.worker (fun hmux => (hframe.holds hmux).1)
        hframe.runThd
      refine hinv.quiet htrace (fun e he => turnOn_of_not_isWorkers (hevents e he)) ?_ ?_
      · obtain hsame | hnotified := hframe.worker
        · rw [hsame]
        · rw [hnotified, L.socket_notified]
      · obtain hsame | hnotified := hframe.worker
        · rwa [hsame]
        · rwa [hnotified, L.due_notified]

end Lockstep

/-! ### Requests and handlers -/

inductive Round
  | request
  | handled
deriving DecidableEq

/-- A request on any socket, or the call of one of the two handlers. -/
def Event.round : Event → Option Round
  | .socketOp _ (.send _) _ => some .request
  | .onMessage _ | .onReqTimeout => some .handled
  | _ => none

def rounds (trace : List Event) : List Round := trace.filterMap Event.round

/-- Whether `workerReq` still has to call a handler for the request it has sent. -/
def ReqWorker.owes (w : ReqWorker) : Round :=
  match w.pc with
  | .poll | .recv | .onMessage _ | .onReqTimeout => .handled
  | _ => .request

/-- Runs in which every request comes to its end. -/
def UndisturbedRun {W T : Type} (s : Service W T) (a : Action T) : Prop :=
  RecvReturns a ∧ NoThrow a ∧ HandlersRegistered s a

instance {W T : Type} [DecidableEq T] (s : Service W T) (a : Action T) :
    Decidable (UndisturbedRun s a) :=
  inferInstanceAs (Decidable (_ ∧ _))

/-- In a step of the worker, nothing is sent or handled, or what is due. -/
theorem ReqWorker.step_round {imp : Imp} {w : ReqWorker} {outcome : Outcome}
    {r : Stepped ReqWorker} (h : w.step imp outcome = some r) (hout : outcome ≠ .received none)
    (hthrow : outcome ≠ .threw) (hmessage : imp.onMessageFunc = true)
    (htimeout : imp.onReqTimeoutFunc = true) :
    (rounds r.events = [] ∧ r.worker.owes = w.owes) ∨
      (rounds r.events = [w.owes] ∧ r.worker.owes ≠ w.owes) := by
  obtain ⟨pc, socket, reset⟩ := w
  cases pc with
  | lock =>
      obtain ⟨rfl, rfl⟩ := goes_cases h
      exact .inl ⟨rfl, rfl⟩
  | loop | checkRun | checkClose =>
      obtain ⟨rfl, rfl⟩ := goes_cases h
      refine .inl ⟨rfl, ?_⟩
      simp only [ReqWorker.goto]
      split_ifs <;> rfl
  | waitOpen wait =>
      obtain ⟨wait', _, rfl, rfl⟩ | ⟨_, _, hdone⟩ := waits_cases h
      · exact .inl ⟨rfl, rfl⟩
      · obtain ⟨rfl, rfl⟩ := goes_cases hdone
        exact .inl ⟨rfl, rfl⟩
  | waitSend wait =>
      obtain ⟨wait', _, rfl, rfl⟩ | ⟨_, _, hdone⟩ := waits_cases h
      · exact .inl ⟨rfl, rfl⟩
      · split_ifs at hdone <;> obtain ⟨rfl, rfl⟩ := goes_cases hdone <;> exact .inl ⟨rfl, rfl⟩
  | create | setsockopt | connect | disconnect | close =>
      obtain ⟨rfl, rfl⟩ | ⟨rfl, _⟩ := operates_cases h
      · exact .inl ⟨rfl, rfl⟩
      · exact absurd rfl hthrow
  | reportOpened | reportClosed =>
      obtain ⟨rfl, rfl⟩ := reports_cases h
      exact .inl ⟨rfl, rfl⟩
  | send request =>
      obtain ⟨rfl, rfl⟩ | ⟨rfl, _⟩ := operates_cases h
      · exact .inr ⟨rfl, by simp [ReqWorker.owes, ReqWorker.goto]⟩
      · exact absurd rfl hthrow
  | poll =>
      obtain ⟨input, rfl, rfl⟩ | ⟨rfl, _⟩ := polls_cases h
      · exact .inl ⟨rfl, by cases input <;> rfl⟩
      · exact absurd rfl hthrow
  | recv =>
      obtain ⟨reply, rfl, rfl⟩ | ⟨rfl, _⟩ := receives_cases h
      · cases reply with
        | none => exact absurd rfl hout
        | some reply => exact .inl ⟨rfl, rfl⟩
      · exact absurd rfl hthrow
  | onMessage reply =>
      obtain ⟨rfl, rfl⟩ := calls_cases h
      exact .inr ⟨by rw [hmessage]; rfl, by simp [ReqWorker.owes, ReqWorker.goto]⟩
  | onReqTimeout =>
      obtain ⟨rfl, rfl⟩ := calls_cases h
      exact .inr ⟨by rw [htimeout]; rfl, by simp [ReqWorker.owes]⟩
  | finished => cases h

theorem rounds_append (trace events : List Event) :
    rounds (trace ++ events) = rounds trace ++ rounds events :=
  List.filterMap_append

theorem owes_notified (w : ReqWorker) : w.notified.owes = w.owes := by
  obtain ⟨pc, socket, reset⟩ := w
  cases pc <;> rfl

variable {T : Type} [DecidableEq T]

/-- In an undisturbed run of the REQ worker, requests and handlers alternate. -/
theorem due_owes {s : Service ReqWorker T}
    (h : Runs.Reachable (Service.step workerReq) UndisturbedRun (Service.init workerReq) s) :
    Due .request .handled (rounds s.trace) s.worker.owes := by
  refine h.invariant (fun s => Due .request .handled (rounds s.trace) s.worker.owes) due_nil ?_
  rintro s a s' hdue ⟨hreturns, hthrow, hregistered⟩ hstep
  by_cases hworker : ∃ outcome, a = .worker outcome
  · obtain ⟨outcome, rfl⟩ := hworker
    cases Service.step_cases hstep with
    | @works _ r hwork =>
        obtain ⟨hmessage, htimeout⟩ := hregistered rfl
        rw [show (s.works r).trace = s.trace ++ r.events from rfl, rounds_append]
        obtain ⟨hnone, howes⟩ | ⟨hone, howes⟩ := ReqWorker.step_round hwork
          (fun hnone => hreturns (hnone ▸ rfl)) (fun hthrew => hthrow (hthrew ▸ rfl)) hmessage
          htimeout
        · rw [hnone, List.append_nil, show (s.works r).worker.owes = s.worker.owes from howes]
          exact hdue
        · rw [hone]
          change Due _ _ _ r.worker.owes
          generalize r.worker.owes = next at howes
          generalize s.worker.owes = now at hdue howes
          cases now <;> cases next <;>
            first | exact hdue.first | exact hdue.second | exact absurd rfl howes
  · have hframe := (Service.step_cases hstep).frame fun outcome ha => hworker ⟨outcome, ha⟩
    obtain ⟨events, htrace, hevents⟩ := hframe.trace
    have hnone : rounds events = [] := by
      refine List.filterMap_eq_nil_iff.mpr fun e he => ?_
      have hothers := hevents e he
      cases e <;> first | rfl | cases hothers
    have howes : s'.worker.owes = s.worker.owes := by
      obtain hsame | hnotified := hframe.worker
      · rw [hsame]
      · rw [hnotified]
        exact owes_notified _
    rw [htrace, rounds_append, hnone, List.append_nil, howes]
    exact hdue

/-- **Socket discipline.** On every socket of either worker, sending and receiving alternate, also
when operations throw; and when none throws and both handlers are registered, exactly one handler is
called between one request and the next. -/
theorem sockets_in_lockstep :
    (∀ s : Service ReqWorker T, Runs.Reachable (Service.step workerReq) (fun _ a => RecvReturns a)
        (Service.init workerReq) s → ∀ n, Alternates .send .recv (turns n s.trace)) ∧
    (∀ s : Service RepWorker T, Runs.Reachable (Service.step workerRep) (fun _ a => RecvReturns a)
        (Service.init workerRep) s → ∀ n, Alternates .recv .send (turns n s.trace)) ∧
    (∀ s : Service ReqWorker T, Runs.Reachable (Service.step workerReq) UndisturbedRun
        (Service.init workerReq) s → Alternates .request .handled (rounds s.trace)) :=
  ⟨fun _ h => (lockstepReq.alternating h).alternates,
    fun _ h => (lockstepRep.alternating h).alternates, fun _ h => (due_owes h).alternates⟩

/-- The REQ worker gets a reply and then times out, and the REP worker answers a request. -/
theorem sockets_in_lockstep_rounds :
    (∃ s : Service ReqWorker Bool, Runs.Reachable (Service.step workerReq) UndisturbedRun
      (Service.init workerReq) s ∧ rounds s.trace = [.request, .handled, .request, .handled] ∧
      Alternates .request .handled (rounds s.trace) ∧ Alternates .send .recv (turns 1 s.trace)) ∧
    (∃ s : Service RepWorker Bool, Runs.Reachable (Service.step workerRep)
      (fun _ a => RecvReturns a) (Service.init workerRep) s ∧ turns 1 s.trace = [.recv, .send] ∧
      Alternates .recv .send (turns 1 s.trace)) := by
  have hreq : ∃ s : Service ReqWorker Bool, Runs.Reachable (Service.step workerReq) UndisturbedRun
      (Service.init workerReq) s ∧ rounds s.trace = [.request, .handled, .request, .handled] :=
    Runs.exists_reachable (List.flatten [[.registerOnMessage true, .registerOnReqTimeout true],
      Action.working 4, [.open true], Action.working 9, [.resume true, .sendMessage false [1]], Action.working 3,
      [.worker (.polled true), .worker (.received (some [2]))], Action.working 4,
      [.sendMessage false [3]], Action.working 3, [.worker (.polled false)], Action.working 1])
      (by decide +kernel)
  have hrep : ∃ s : Service RepWorker Bool, Runs.Reachable (Service.step workerRep)
      (fun _ a => RecvReturns a) (Service.init workerRep) s ∧ turns 1 s.trace = [.recv, .send] :=
    Runs.exists_reachable (List.flatten [[.registerOnMessage true, .open true], Action.working 8,
      [.resume true, .worker (.polled true)], Action.working 1, [.worker (.received (some [1]))],
      Action.working 4, [.sendMessage false [2]], Action.working 3]) (by decide +kernel)
  obtain ⟨req, hreq, hreqRounds⟩ := hreq
  obtain ⟨rep, hrep, hrepTurns⟩ := hrep
  obtain ⟨hturnsReq, hturnsRep, hrounds⟩ := sockets_in_lockstep (T := Bool)
  exact ⟨⟨req, hreq, hreqRounds, hrounds req hreq,
    hturnsReq req (hreq.mono fun _ _ hallowed => hallowed.1) 1⟩,
    ⟨rep, hrep, hrepTurns, hturnsRep rep hrep 1⟩⟩

end Shapeware.ZeroMq
