import Shapeware.ZeroMq.WorkerReq

/-!
# What becomes of the messages left for the REQ worker

`sendMessage` leaves its message in a single place, `m_messageToSend`, and returns. The worker takes
it from there when it next looks. A message that is left before the last one has been taken
overwrites it; apart from that, everything accepted is sent once and in order.
-/

namespace Shapeware.ZeroMq

open Stepped

/-- The messages that `sendMessage` has accepted. -/
def accepted (trace : List Event) : List StdString :=
  trace.filterMap fun
    | .accepted msg => some msg
    | _ => none

/-- The requests that have been put on sockets. -/
def sent (trace : List Event) : List StdString :=
  trace.filterMap fun
    | .socketOp _ (.send msg) false => some msg
    | _ => none

/-- The message that is still to be taken by the worker. -/
def Imp.waiting (s : Imp) : List StdString := if s.sendMessage then [s.messageToSend] else []

/-- The message that the worker has taken and is about to send. -/
def ReqWorker.taken (w : ReqWorker) : List StdString :=
  match w.pc with
  | .send request => [request]
  | _ => []

theorem sent_append (trace events : List Event) :
    sent (trace ++ events) = sent trace ++ sent events := List.filterMap_append

theorem accepted_append (trace events : List Event) :
    accepted (trace ++ events) = accepted trace ++ accepted events := List.filterMap_append

theorem taken_notified (w : ReqWorker) : w.notified.taken = w.taken := by
  obtain ⟨pc, socket, reset⟩ := w
  cases pc <;> rfl

/-- A step of the worker takes the message, sends what it has taken, or does neither. -/
theorem ReqWorker.step_pending {imp : Imp} {w : ReqWorker} {outcome : Outcome}
    {r : Stepped ReqWorker} (h : w.step imp outcome = some r) (hthrow : outcome ≠ .threw) :
    sent r.events ++ (r.worker.taken ++ r.imp.waiting) = w.taken ++ imp.waiting ∧
      accepted r.events = [] := by
  obtain ⟨pc, socket, reset⟩ := w
  cases pc with
  | lock =>
      obtain ⟨rfl, rfl⟩ := goes_cases h
      exact ⟨rfl, rfl⟩
  | loop | checkRun | checkClose =>
      obtain ⟨rfl, rfl⟩ := goes_cases h
      refine ⟨?_, rfl⟩
      simp only [ReqWorker.goto]
      split_ifs <;> rfl
  | waitOpen wait =>
      obtain ⟨wait', _, rfl, rfl⟩ | ⟨_, _, hdone⟩ := waits_cases h
      · exact ⟨rfl, rfl⟩
      · obtain ⟨rfl, rfl⟩ := goes_cases hdone
        exact ⟨rfl, rfl⟩
  | waitSend wait =>
      obtain ⟨wait', _, rfl, rfl⟩ | ⟨_, _, hdone⟩ := waits_cases h
      · exact ⟨rfl, rfl⟩
      · split_ifs at hdone with hsend
        · obtain ⟨rfl, rfl⟩ := goes_cases hdone
          exact ⟨by simp [sent, ReqWorker.taken, ReqWorker.goto, Imp.waiting, hsend], rfl⟩
        · obtain ⟨rfl, rfl⟩ := goes_cases hdone
          exact ⟨rfl, rfl⟩
  | create | setsockopt | connect | disconnect | close | send =>
      obtain ⟨rfl, rfl⟩ | ⟨rfl, _⟩ := operates_cases h
      · exact ⟨rfl, rfl⟩
      · exact absurd rfl hthrow
  | reportOpened | reportClosed =>
      obtain ⟨rfl, rfl⟩ := reports_cases h
      exact ⟨rfl, rfl⟩
  | poll =>
      obtain ⟨input, rfl, rfl⟩ | ⟨rfl, _⟩ := polls_cases h
      · cases input <;> exact ⟨rfl, rfl⟩
      · exact absurd rfl hthrow
  | recv =>
      obtain ⟨reply, rfl, rfl⟩ | ⟨rfl, _⟩ := receives_cases h
      · cases reply <;> exact ⟨rfl, rfl⟩
      · exact absurd rfl hthrow
  | onMessage =>
      obtain ⟨rfl, rfl⟩ := calls_cases h
      cases imp.onMessageFunc <;> exact ⟨rfl, rfl⟩
  | onReqTimeout =>
      obtain ⟨rfl, rfl⟩ := calls_cases h
      cases imp.onReqTimeoutFunc <;> exact ⟨rfl, rfl⟩
  | finished => cases h

section Runs

variable {T : Type} {s s' : Service ReqWorker T} {a : Action T}

/-- The requests put on sockets, the one about to be, and the one that waits. -/
def passedOn (s : Service ReqWorker T) : List StdString :=
  sent s.trace ++ (s.worker.taken ++ s.imp.waiting)

/-- `sendMessage` finds the last message taken. -/
def NotOverwriting (s : Service ReqWorker T) (a : Action T) : Prop :=
  a.isSendMessage = true → s.imp.requireSocketState = .open → s.imp.sendMessage = false

instance (s : Service ReqWorker T) (a : Action T) : Decidable (NotOverwriting s a) :=
  inferInstanceAs (Decidable (_ → _ → _))

/-- The part of a step that does not concern messages. -/
theorem passedOn_congr (hsent : sent s'.trace = sent s.trace)
    (haccepted : accepted s'.trace = accepted s.trace)
    (hworker : s'.worker = s.worker ∨ s'.worker = s.worker.notified)
    (hwaiting : s'.imp.waiting = s.imp.waiting) :
    passedOn s' = passedOn s ∧ accepted s'.trace = accepted s.trace := by
  refine ⟨?_, haccepted⟩
  rw [passedOn, passedOn, hsent, hwaiting]
  obtain hsame | hnotified := hworker
  · rw [hsame]
  · rw [hnotified, taken_notified]

/-- All that a step can do with messages: an accepted message is added, and takes the place of the
one that waits. -/
theorem passedOn_step [DecidableEq T] (hthrow : NoThrow a) (hstep : Service.step workerReq s a = some s') :
    (passedOn s' = passedOn s ∧ accepted s'.trace = accepted s.trace) ∨
      ∃ t msg, a = .sendMessage t msg ∧ s.imp.requireSocketState = .open ∧
        passedOn s' = sent s.trace ++ (s.worker.taken ++ [msg]) ∧
        accepted s'.trace = accepted s.trace ++ [msg] := by
  cases Service.step_cases hstep with
  | opening | closing => exact .inl (passedOn_congr (by simp [sent]) (by simp [accepted]) (.inr rfl) rfl)
  | @accepts t msg _ hstate =>
      refine .inr ⟨t, msg, rfl, hstate, ?_, by simp [accepted]⟩
      have htaken : s.worker.notified.taken = s.worker.taken := taken_notified _
      simp [passedOn, sent, workerReq, htaken, Imp.waiting]
  | refuses | opened | closed =>
      exact .inl (passedOn_congr (by simp [sent]) (by simp [accepted]) (.inl rfl) rfl)
  | notifies | wakesWorker => exact .inl (passedOn_congr rfl rfl (.inr rfl) rfl)
  | works hwork =>
      obtain ⟨hpending, haccepted⟩ :=
        ReqWorker.step_pending hwork fun hthrew => hthrow (hthrew ▸ rfl)
      left
      rw [passedOn, passedOn, Service.works, sent_append, accepted_append, haccepted,
        List.append_nil, List.append_assoc, hpending]
      exact ⟨rfl, rfl⟩
  | _ => exact .inl (passedOn_congr rfl rfl (.inl rfl) rfl)

variable [DecidableEq T]

/-- **Nothing is lost** as long as no message is left before the last one has been taken: what is on
the sockets, and what is still on its way there, is what was accepted, once each and in order. -/
theorem passedOn_eq_accepted
    (h : Runs.Reachable (Service.step workerReq) (fun s a => NoThrow a ∧ NotOverwriting s a)
      (Service.init workerReq) s) : passedOn s = accepted s.trace := by
  refine h.invariant (fun s => passedOn s = accepted s.trace) rfl ?_
  rintro s a s' heq ⟨hthrow, hfree⟩ hstep
  obtain ⟨hpassed, haccepted⟩ | ⟨t, msg, rfl, hstate, hpassed, haccepted⟩ :=
    passedOn_step hthrow hstep
  · rw [hpassed, haccepted, heq]
  · have hnone : s.imp.waiting = [] := by simp [Imp.waiting, hfree rfl hstate]
    rw [hpassed, haccepted, ← heq, passedOn, hnone]
    simp

/-- Three messages, each left after the one before has been taken; the last two find the worker in a
reply timeout and waiting. -/
theorem passedOn_eq_accepted_three : ∃ s : Service ReqWorker Bool,
    sent s.trace = [[1], [2]] ∧ s.imp.waiting = [[3]] ∧ passedOn s = accepted s.trace := by
  have hrun : ∃ s : Service ReqWorker Bool, Runs.Reachable (Service.step workerReq)
      (fun s a => NoThrow a ∧ NotOverwriting s a) (Service.init workerReq) s ∧
      sent s.trace = [[1], [2]] ∧ s.imp.waiting = [[3]] :=
    Runs.exists_reachable (List.flatten [[.open true], Action.working 10,
      [.resume true, .sendMessage false [1]], Action.working 3, [.worker (.polled false)],
      Action.working 5, [.sendMessage true [2]], Action.working 10, [.worker (.polled true),
      .worker (.received (some [7]))], Action.working 4, [.sendMessage false [3]]])
      (by decide +kernel)
  obtain ⟨s, hs, hsent, hwaiting⟩ := hrun
  exact ⟨s, hsent, hwaiting, passedOn_eq_accepted hs⟩

/-- The second of two messages left in a row overwrites the first. -/
theorem second_message_overwrites_first :
    ¬ ∀ s : Service ReqWorker Unit, Runs.Reachable (Service.step workerReq) (fun _ a => NoThrow a)
      (Service.init workerReq) s → passedOn s = accepted s.trace :=
  Runs.not_forall_reachable (List.flatten [[.open ()], Action.working 10,
    [.resume (), .sendMessage () [1], .sendMessage () [2]]]) (by decide +kernel)

/-! ### What is overwritten stays lost -/

/-- A step never brings the messages passed on closer to the accepted ones. -/
theorem length_passedOn_step (hthrow : NoThrow a)
    (hstep : Service.step workerReq s a = some s') :
    (passedOn s').length + (accepted s.trace).length
      ≤ (passedOn s).length + (accepted s'.trace).length := by
  obtain ⟨hpassed, haccepted⟩ | ⟨t, msg, _, _, hpassed, haccepted⟩ := passedOn_step hthrow hstep
  · rw [hpassed, haccepted]
  · rw [hpassed, haccepted]
    simp only [passedOn, List.length_append, List.length_singleton]
    omega

/-- The condition is exact: once a message has been overwritten, the loss is never made good. -/
theorem passedOn_ne_accepted {t : Service ReqWorker T} {msg : StdString} {thread : T}
    (hs : Runs.Reachable (Service.step workerReq) (fun _ a => NoThrow a)
      (Service.init workerReq) s)
    (hstate : s.imp.requireSocketState = .open) (hflag : s.imp.sendMessage = true)
    (hstep : Service.step workerReq s (.sendMessage thread msg) = some s')
    (hrun : Runs.Reachable (Service.step workerReq) (fun _ a => NoThrow a) s' t) :
    passedOn t ≠ accepted t.trace := by
  have hle : (passedOn s).length ≤ (accepted s.trace).length := by
    refine hs.invariant (fun s => (passedOn s).length ≤ (accepted s.trace).length) le_rfl ?_
    intro s a s' hle hthrow hstep
    have := length_passedOn_step hthrow hstep
    omega
  have hlost : (passedOn s').length < (accepted s'.trace).length := by
    cases Service.step_cases hstep with
    | accepts =>
        have htaken : s.worker.notified.taken = s.worker.taken := taken_notified _
        simp [passedOn, sent, accepted, workerReq, htaken, Imp.waiting, hflag] at hle ⊢
        omega
    | refuses hclosed => exact absurd (hstate.symm.trans hclosed) (by simp)
  have hlater : (passedOn t).length < (accepted t.trace).length := by
    refine hrun.invariant (fun s => (passedOn s).length < (accepted s.trace).length) hlost ?_
    intro s a s' hlt hthrow hstep
    have := length_passedOn_step hthrow hstep
    omega
  exact fun heq => hlater.ne (congrArg List.length heq)

end Runs

end Shapeware.ZeroMq
