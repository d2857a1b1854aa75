import Shapeware.Library.Inevitably
import Shapeware.ZeroMq.SendMessage
import Shapeware.ZeroMq.Shutdown
import Shapeware.ZeroMq.Sockets

/-!
# Every request comes to its end

`sendMessage` returns before anything is sent. From then on it is up to the worker: by its own steps,
however the polls turn out, it sends what was accepted, calls a handler for it, and comes to the wait
that fits the state it is asked for. Only there does it sleep.
-/

namespace Shapeware.ZeroMq

open Alternation Stepped

namespace ReqWorker

/-- A worker that sleeps, or is about to, is asked for nothing, and one that has ended was stopped. -/
def Rested (imp : Imp) (w : ReqWorker) : Prop :=
  match w.pc with
  | .waitOpen .block | .waitOpen .blocked => imp.requireSocketState = .close
  | .waitSend .block | .waitSend .blocked =>
    imp.requireSocketState = .open ∧ imp.sendMessage = false
  | .finished => imp.runThd = false
  | _ => True

/-- The steps to the wait for a message, when the socket is to be open. -/
def toSend (w : ReqWorker) : Nat :=
  match w.pc with
  | .waitSend .blocked | .waitOpen .block | .waitOpen .blocked | .finished => 0
  | .waitSend .block => 1
  | .waitSend .test => 2
  | .waitSend .relock | .reportOpened => 3
  | .connect => 4
  | .setsockopt => 5
  | .create => 6
  | .checkRun => 7
  | .waitOpen .test => 8
  | .waitOpen .relock | .lock => 9
  | .loop => 10
  | .reportClosed => 11
  | .close => 12
  | .disconnect => 13
  | .checkClose => 14
  | .onMessage _ | .onReqTimeout => 15
  | .recv => 16
  | .poll => 17
  | .send _ => 18

/-- The steps to the wait for `open`, when the socket is to be closed. -/
def toClose (w : ReqWorker) : Nat :=
  match w.pc with
  | .waitOpen .blocked | .waitSend .block | .waitSend .blocked | .finished => 0
  | .waitOpen .block => 1
  | .waitOpen .test => 2
  | .waitOpen .relock | .lock => 3
  | .loop => 4
  | .reportClosed => 5
  | .close => 6
  | .disconnect => 7
  | .checkClose => 8
  | .onMessage _ | .onReqTimeout | .waitSend .test => 9
  | .recv | .waitSend .relock | .reportOpened => 10
  | .poll | .connect => 11
  | .send _ | .setsockopt => 12
  | .create => 13
  | .checkRun => 14

/-- A message that waits costs a round of its own. -/
def toRest (imp : Imp) (w : ReqWorker) : Nat :=
  (if imp.sendMessage then 18 else 0) +
    match imp.requireSocketState with
    | .open => w.toSend
    | .close => w.toClose

/-- What a step of the worker that throws nothing does on its way to rest. -/
structure Approaches (imp : Imp) (w : ReqWorker) (r : Stepped ReqWorker) : Prop where
  toRest : r.worker.toRest r.imp < w.toRest imp
  rested : r.worker.Rested r.imp
  requireSocketState : r.imp.requireSocketState = imp.requireSocketState
  runThd : r.imp.runThd = imp.runThd
  onMessageFunc : r.imp.onMessageFunc = imp.onMessageFunc
  onReqTimeoutFunc : r.imp.onReqTimeoutFunc = imp.onReqTimeoutFunc

/-- A step to another point that takes no message. -/
theorem Approaches.moves {imp : Imp} {w w' : ReqWorker} {events : List Event} {notifyReady : Bool}
    (socketOpened : Bool) (hrested : w'.Rested imp) (hopen : imp.requireSocketState = .open → w'.toSend < w.toSend)
    (hclose : imp.requireSocketState = .close → w'.toClose < w.toClose) :
    w.Approaches imp { imp := { imp with socketOpened }, worker := w', events, notifyReady } := by
  refine ⟨?_, hrested, rfl, rfl, rfl, rfl⟩
  cases hstate : imp.requireSocketState with
  | «open» => simpa [ReqWorker.toRest, hstate] using hopen hstate
  | close => simpa [ReqWorker.toRest, hstate] using hclose hstate

theorem step_approaches {imp : Imp} {w : ReqWorker} {outcome : Outcome} {r : Stepped ReqWorker}
    (h : w.step imp outcome = some r) (hthrow : outcome ≠ .threw) (hrun : imp.runThd = true)
    (hrested : w.Rested imp) : w.Approaches imp r := by
  obtain ⟨pc, socket, reset⟩ := w
  cases pc with
  | loop | checkRun =>
      obtain ⟨rfl, rfl⟩ := goes_cases h
      rw [if_pos hrun]
      exact .moves _ trivial (by simp [goto, toSend]) (by simp [goto, toClose])
  | lock =>
      obtain ⟨rfl, rfl⟩ := goes_cases h
      exact .moves _ trivial (by simp [goto, toSend]) (by simp [goto, toClose])
  | waitOpen wait =>
      obtain ⟨wait', hgoes, rfl, rfl⟩ | ⟨rfl, hasked, hdone⟩ := waits_cases h
      · cases hgoes with
        | block hfalse =>
            have hclose : imp.requireSocketState = .close := by simpa [hrun] using hfalse
            exact .moves _ hclose (by simp [hclose]) (by simp [goto, toClose])
        | sleep =>
            have hclose : imp.requireSocketState = .close := hrested
            exact .moves _ hclose (by simp [hclose]) (by simp [goto, toClose])
        | retest =>
            exact .moves _ trivial (by simp [goto, toSend]) (by simp [goto, toClose])
      · obtain ⟨rfl, rfl⟩ := goes_cases hdone
        have hopen : imp.requireSocketState = .open := by simpa [hrun] using hasked
        exact .moves _ trivial (by simp [goto, toSend]) (by simp [hopen])
  | waitSend wait =>
      obtain ⟨wait', hgoes, rfl, rfl⟩ | ⟨rfl, hasked, hdone⟩ := waits_cases h
      · cases hgoes with
        | block hfalse =>
            obtain ⟨hnone, hopen⟩ : imp.sendMessage = false ∧ imp.requireSocketState = .open := by
              simpa [hrun] using hfalse
            exact .moves _ ⟨hopen, hnone⟩ (by simp [goto, toSend]) (by simp [hopen])
        | sleep =>
            obtain ⟨hopen, hnone⟩ : imp.requireSocketState = .open ∧ imp.sendMessage = false :=
              hrested
            exact .moves _ ⟨hopen, hnone⟩ (by simp [goto, toSend]) (by simp [hopen])
        | retest =>
            exact .moves _ trivial (by simp [goto, toSend]) (by simp [goto, toClose])
      · split_ifs at hdone with hsend
        · obtain ⟨rfl, rfl⟩ := goes_cases hdone
          refine ⟨?_, trivial, rfl, rfl, rfl, rfl⟩
          cases hstate : imp.requireSocketState <;>
            simp [ReqWorker.toRest, hstate, hsend, goto, toSend, toClose]
        · obtain ⟨rfl, rfl⟩ := goes_cases hdone
          have hclose : imp.requireSocketState = .close := by simpa [hrun, hsend] using hasked
          exact .moves _ trivial (by simp [hclose]) (by simp [goto, toClose])
  | checkClose =>
      obtain ⟨rfl, rfl⟩ := goes_cases h
      split_ifs with hleave
      · exact .moves _ trivial (by simp [goto, toSend]) (by simp [goto, toClose])
      · have hopen : imp.requireSocketState = .open := by simp_all
        exact .moves _ trivial (by simp [goto, toSend]) (by simp [hopen])
  | create | setsockopt | connect | disconnect | close | send =>
      obtain ⟨rfl, rfl⟩ | ⟨rfl, _⟩ := operates_cases h
      · exact .moves _ trivial (by simp [goto, toSend]) (by simp [goto, toClose])
      · exact absurd rfl hthrow
  | reportOpened | reportClosed =>
      obtain ⟨rfl, rfl⟩ := reports_cases h
      exact .moves _ trivial (by simp [goto, toSend]) (by simp [goto, toClose])
  | poll =>
      obtain ⟨input, rfl, rfl⟩ | ⟨rfl, _⟩ := polls_cases h
      · cases input <;>
          exact .moves _ trivial (by simp [goto, toSend]) (by simp [goto, toClose])
      · exact absurd rfl hthrow
  | recv =>
      obtain ⟨reply, rfl, rfl⟩ | ⟨rfl, _⟩ := receives_cases h
      · cases reply <;>
          exact .moves _ trivial (by simp [goto, toSend]) (by simp [goto, toClose])
      · exact absurd rfl hthrow
  | onMessage | onReqTimeout =>
      obtain ⟨rfl, rfl⟩ := calls_cases h
      exact .moves _ trivial (by simp [goto, toSend]) (by simp [goto, toClose])
  | finished => cases h

theorem step_none_threw {imp : Imp} {w : ReqWorker} {outcome : Outcome} {r : Stepped ReqWorker}
    (h : w.step imp outcome = some r) (hthrow : outcome ≠ .threw) (n : Nat) (op : SocketOp) :
    .socketOp n op true ∉ r.events := by
  obtain ⟨pc, socket, reset⟩ := w
  cases pc with
  | loop | lock | checkRun | checkClose =>
      obtain ⟨rfl, rfl⟩ := goes_cases h
      simp
  | waitOpen wait =>
      obtain ⟨wait', _, rfl, rfl⟩ | ⟨_, _, hdone⟩ := waits_cases h
      · simp
      · obtain ⟨rfl, rfl⟩ := goes_cases hdone
        simp
  | waitSend wait =>
      obtain ⟨wait', _, rfl, rfl⟩ | ⟨_, _, hdone⟩ := waits_cases h
      · simp
      · split_ifs at hdone <;> obtain ⟨rfl, rfl⟩ := goes_cases hdone <;> simp
  | create | setsockopt | connect | disconnect | close | send =>
      obtain ⟨rfl, rfl⟩ | ⟨rfl, _⟩ := operates_cases h
      · simp
      · exact absurd rfl hthrow
  | reportOpened | reportClosed =>
      obtain ⟨rfl, rfl⟩ := reports_cases h
      simp
  | poll =>
      obtain ⟨input, rfl, rfl⟩ | ⟨rfl, _⟩ := polls_cases h
      · simp
      · exact absurd rfl hthrow
  | recv =>
      obtain ⟨reply, rfl, rfl⟩ | ⟨rfl, _⟩ := receives_cases h
      · simp
      · exact absurd rfl hthrow
  | onMessage | onReqTimeout =>
      obtain ⟨rfl, rfl⟩ := calls_cases h
      split_ifs <;> simp
  | finished => cases h

/-- Where the worker can take no step, it sleeps. -/
theorem exists_step {imp : Imp} {w : ReqWorker} (hrun : imp.runThd = true)
    (hrested : w.Rested imp) (hopen : w.pc ≠ .waitOpen .blocked)
    (hsend : w.pc ≠ .waitSend .blocked) :
    ∃ outcome, outcome ≠ .threw ∧ outcome ≠ .received none ∧ (w.step imp outcome).isSome := by
  obtain ⟨pc, socket, reset⟩ := w
  cases pc with
  | poll => exact ⟨.polled false, by simp, by simp, rfl⟩
  | recv => exact ⟨.received (some []), by simp, by simp, rfl⟩
  | waitOpen wait =>
      refine ⟨.ok, by simp, by simp, ?_⟩
      cases wait with
      | test =>
          simp only [step, waits]
          split_ifs <;> rfl
      | block | relock => rfl
      | blocked => exact absurd rfl hopen
  | waitSend wait =>
      refine ⟨.ok, by simp, by simp, ?_⟩
      cases wait with
      | test =>
          simp only [step, waits]
          split_ifs <;> rfl
      | block | relock => rfl
      | blocked => exact absurd rfl hsend
  | finished => exact absurd (hrun.symm.trans hrested) Bool.noConfusion
  | _ => exact ⟨.ok, by simp, by simp, rfl⟩

theorem Rested.waitOpen {imp : Imp} {w : ReqWorker} (h : w.Rested imp)
    (hpc : w.pc = .waitOpen .blocked) : imp.requireSocketState = .close := by
  simpa [Rested, hpc] using h

theorem Rested.waitSend {imp : Imp} {w : ReqWorker} (h : w.Rested imp)
    (hpc : w.pc = .waitSend .blocked) :
    imp.requireSocketState = .open ∧ imp.sendMessage = false := by
  simpa [Rested, hpc] using h

theorem Rested.notified {imp : Imp} {w : ReqWorker} (h : w.Rested imp) :
    w.notified.Rested imp := by
  obtain ⟨pc, socket, reset⟩ := w
  cases pc with
  | waitOpen wait | waitSend wait => cases wait <;> first | exact h | trivial
  | finished => exact h
  | _ => trivial

/-- Nobody can change what a worker sleeps on without a notification. -/
theorem Rested.wakes {imp imp' : Imp} {w : ReqWorker} (h : w.Rested imp)
    (hholds : w.holdsMux = false) (hrun : imp'.runThd = imp.runThd) : w.notified.Rested imp' := by
  obtain ⟨pc, socket, reset⟩ := w
  cases pc with
  | waitOpen wait | waitSend wait =>
      cases wait with
      | test | block => cases hholds
      | blocked | relock => trivial
  | finished => exact hrun.trans h
  | _ => trivial

end ReqWorker

section Service

variable {T : Type} {s s' t : Service ReqWorker T} {a : Action T}

/-- Nothing has thrown, and a worker that is not stopped rests only where it should. -/
structure Undisturbed (s : Service ReqWorker T) : Prop where
  rested : s.imp.runThd = true → s.worker.Rested s.imp
  none_threw : ∀ n op, .socketOp n op true ∉ s.trace

/-- The steps that the worker takes by itself. -/
def GoesOn (a : Action T) : Prop := a.isWorker = true ∧ NoThrow a ∧ RecvReturns a

/-- The worker sleeps in the wait that fits, and every accepted message has been sent, in order, and
handled. What was left before a `close` that came first waits for the next `open`. -/
structure AtRest (s : Service ReqWorker T) : Prop where
  opened : s.imp.requireSocketState = .open →
    s.worker.pc = .waitSend .blocked ∧ sent s.trace = accepted s.trace
  closed : s.imp.requireSocketState = .close →
    s.worker.pc = .waitOpen .blocked ∧ sent s.trace ++ s.imp.waiting = accepted s.trace
  handled : (rounds s.trace).count .handled = (sent s.trace).length

/-- Without an operation that threw, the requests of the rounds are the messages sent. -/
theorem count_request {trace : List Event} (h : ∀ n op, .socketOp n op true ∉ trace) :
    (rounds trace).count .request = (sent trace).length := by
  induction trace with
  | nil => rfl
  | cons e trace ih =>
      have hrest := ih fun n op hmem => h n op (List.mem_cons_of_mem e hmem)
      have hhead : (rounds [e]).count .request = (sent [e]).length := by
        cases e with
        | socketOp n op threw =>
            cases threw with
            | true => exact absurd List.mem_cons_self (h n op)
            | false => cases op <;> rfl
        | _ => rfl
      rw [← List.singleton_append, rounds_append, sent_append, List.count_append, hrest, hhead,
        List.length_append]

variable [DecidableEq T]

theorem Undisturbed.step (h : Undisturbed s) (hthrow : NoThrow a)
    (hstep : Service.step workerReq s a = some s') : Undisturbed s' := by
  cases Service.step_cases hstep with
  | opening henter | closing henter | accepts henter =>
      exact ⟨fun hrun => (h.rested hrun).wakes henter.2 rfl, by simpa using h.none_threw⟩
  | refuses | opened | closed => exact ⟨h.rested, by simpa using h.none_threw⟩
  | stops => exact ⟨fun hrun => absurd hrun Bool.false_ne_true, h.none_threw⟩
  | notifies | wakesWorker => exact ⟨fun hrun => (h.rested hrun).notified, h.none_threw⟩
  | @works outcome r hwork =>
      have hout : outcome ≠ .threw := fun heq => hthrow (heq ▸ rfl)
      refine ⟨fun hrun => ?_, fun n op hmem => (List.mem_append.mp hmem).elim (h.none_threw n op)
        (ReqWorker.step_none_threw hwork hout n op)⟩
      have hbefore : s.imp.runThd = true := (ReqWorker.step_wait hwork).1 ▸ hrun
      exact (ReqWorker.step_approaches hwork hout hbefore (h.rested hbefore)).rested
  | _ => exact ⟨h.rested, h.none_threw⟩

theorem undisturbed_of_reachable {allowed : Service ReqWorker T → Action T → Prop}
    (hthrow : ∀ s a, allowed s a → NoThrow a)
    (h : Runs.Reachable (Service.step workerReq) allowed (Service.init workerReq) s) :
    Undisturbed s :=
  h.invariant Undisturbed ⟨fun _ => trivial, by simp [Service.init]⟩
    fun _ _ _ hs hallowed hstep => hs.step (hthrow _ _ hallowed) hstep

/-- Runs in which the requests come to their end, and none is overwritten. -/
def CalmRun (s : Service ReqWorker T) (a : Action T) : Prop :=
  UndisturbedRun s a ∧ NotOverwriting s a

instance (s : Service ReqWorker T) (a : Action T) : Decidable (CalmRun s a) :=
  inferInstanceAs (Decidable (_ ∧ _))

theorem atRest_of_blocked
    (h : Runs.Reachable (Service.step workerReq) CalmRun (Service.init workerReq) s)
    (hrun : s.imp.runThd = true)
    (hpc : s.worker.pc = .waitOpen .blocked ∨ s.worker.pc = .waitSend .blocked) : AtRest s := by
  have hundisturbed := undisturbed_of_reachable (fun _ _ hallowed => hallowed.1.2.1) h
  have hpassed : passedOn s = accepted s.trace := passedOn_eq_accepted
    (h.mono fun _ _ hallowed => ⟨hallowed.1.2.1, hallowed.2⟩)
  have hdue := due_owes (h.mono fun _ _ => And.left)
  have hrested := hundisturbed.rested hrun
  have hboth : s.worker.taken = [] ∧ s.worker.owes = .request := by
    obtain hpc | hpc := hpc <;> simp [ReqWorker.taken, ReqWorker.owes, hpc]
  rw [passedOn, hboth.1, List.nil_append] at hpassed
  rw [hboth.2] at hdue
  refine ⟨fun hopen => ?_, fun hclose => ?_, ?_⟩
  · obtain hpc | hpc := hpc
    · exact absurd (hopen.symm.trans (hrested.waitOpen hpc)) (by simp)
    · rw [Imp.waiting, (hrested.waitSend hpc).2] at hpassed
      exact ⟨hpc, by simpa using hpassed⟩
  · obtain hpc | hpc := hpc
    · exact ⟨hpc, hpassed⟩
    · exact absurd ((hrested.waitSend hpc).1.symm.trans hclose) (by simp)
  · rw [← count_request hundisturbed.none_threw, hdue.count_eq (by simp)]

/-- **Every request comes to its end.** However the polls turn out, the worker's own steps take it to
the wait that fits, with all that `sendMessage` has accepted sent, in order, and a handler called once
for each. -/
theorem requests_settle
    (h : Runs.Reachable (Service.step workerReq) CalmRun (Service.init workerReq) s)
    (hrun : s.imp.runThd = true) (hmessage : s.imp.onMessageFunc = true)
    (htimeout : s.imp.onReqTimeoutFunc = true) :
    Runs.Inevitably (Service.step workerReq) (fun _ a => GoesOn a)
      (fun t => AtRest t ∧ accepted t.trace = accepted s.trace) s := by
  refine (Runs.inevitably_of_rank
    (P := fun t => t.worker.pc = .waitOpen .blocked ∨ t.worker.pc = .waitSend .blocked)
    (fun t => Runs.Reachable (Service.step workerReq) CalmRun (Service.init workerReq) t ∧
      t.imp.runThd = true ∧ t.imp.onMessageFunc = true ∧ t.imp.onReqTimeoutFunc = true ∧
      accepted t.trace = accepted s.trace) (fun t => t.worker.toRest t.imp) ?_ ?_
    ⟨h, hrun, hmessage, htimeout, rfl⟩).mono ?_
  · rintro t ⟨ht, hrun, -⟩ hblocked
    have hrested := (undisturbed_of_reachable (fun _ _ hallowed => hallowed.1.2.1) ht).rested hrun
    obtain ⟨outcome, hthrow, hreturns, hsome⟩ := ReqWorker.exists_step hrun hrested
      (fun hpc => hblocked (.inl hpc)) fun hpc => hblocked (.inr hpc)
    obtain ⟨r, hr⟩ := Option.isSome_iff_exists.mp hsome
    exact ⟨.worker outcome, t.works r, ⟨rfl, by simpa [NoThrow] using hthrow,
      by simpa [RecvReturns] using hreturns⟩, congrArg (Option.map t.works) hr⟩
  · rintro t a t' ⟨ht, hrun, hmessage, htimeout, haccepted⟩ - ⟨hworker, hthrow, hreturns⟩ hstep
    have hrested := (undisturbed_of_reachable (fun _ _ hallowed => hallowed.1.2.1) ht).rested hrun
    cases a with
    | worker outcome =>
        obtain ⟨r, hwork, rfl⟩ := Option.map_eq_some_iff.mp hstep
        have hout : outcome ≠ .threw := fun heq => hthrow (heq ▸ rfl)
        have happroaches := ReqWorker.step_approaches hwork hout hrun hrested
        have hnone := (ReqWorker.step_pending hwork hout).2
        refine ⟨⟨.tail _ ht ⟨⟨hreturns, hthrow, fun _ => ⟨hmessage, htimeout⟩⟩, by
            simp [NotOverwriting, Action.isSendMessage]⟩ hstep,
          happroaches.runThd.trans hrun, happroaches.onMessageFunc.trans hmessage,
          happroaches.onReqTimeoutFunc.trans htimeout, ?_⟩, happroaches.toRest⟩
        rw [Service.works, accepted_append, hnone, List.append_nil, haccepted]
    | _ => cases hworker
  · rintro t ⟨hblocked, ht, hrun, -, -, haccepted⟩
    exact ⟨atRest_of_blocked ht hrun hblocked, haccepted⟩

/-- One request has timed out and a second one is accepted while the worker is on its way back. -/
theorem requests_settle_timeout : ∃ s : Service ReqWorker Bool,
    accepted s.trace = [[1], [2]] ∧ sent s.trace = [[1]] ∧ s.worker.pc = .loop ∧
      Runs.Inevitably (Service.step workerReq) (fun _ a => GoesOn a)
        (fun t => AtRest t ∧ accepted t.trace = [[1], [2]]) s := by
  have hrun : ∃ s : Service ReqWorker Bool, Runs.Reachable (Service.step workerReq) CalmRun
      (Service.init workerReq) s ∧ s.imp.runThd = true ∧ s.imp.onMessageFunc = true ∧
      s.imp.onReqTimeoutFunc = true ∧ accepted s.trace = [[1], [2]] ∧ sent s.trace = [[1]] ∧
      s.worker.pc = .loop :=
    Runs.exists_reachable (List.flatten [[.registerOnMessage true, .registerOnReqTimeout true,
      .open true], Action.working 10, [.resume true, .sendMessage false [1]], Action.working 3,
      [.worker (.polled false)], Action.working 5, [.sendMessage true [2]]]) (by decide +kernel)
  obtain ⟨s, hs, hflag, hmessage, htimeout, haccepted, hsent, hpc⟩ := hrun
  have hsettles := requests_settle hs hflag hmessage htimeout
  exact ⟨s, haccepted, hsent, hpc, haccepted ▸ hsettles⟩

end Service

end Shapeware.ZeroMq
