import Shapeware.Mqtt.Ledger

/-!
# The message handlers and the subscriptions of the broker

`subscribe` and `unsubscribe` change `m_onMessageHndlMap` when the library accepts the request, and
no answer changes it back. So the map follows the last *accepted* request on a topic, while the
broker follows the last one that *succeeded*. The two agree exactly when these leave the same
handler behind.
-/

namespace Shapeware.Mqtt

/-- The topic filter whose message handler a request changes. -/
def Op.handlerTopic : Op → Option StdString
  | .subscribe topic _ => some topic
  | .unsubscribe topic => some topic
  | .publish .. => none

/-- The message handler that is registered once this was the last request on its topic. -/
def Request.handlerAfter (r : Request) : Option Nat :=
  match r.op with
  | .subscribe .. => some r.call
  | _ => none

namespace Imp

/-- Storing a context registers or removes the message handler of its own topic. -/
theorem onMessageHndlMap_store (s : Imp Nat) (r : Request) (topic : StdString) :
    (s.store r.op r.token r.call).onMessageHndlMap[topic]?
      = if r.op.handlerTopic = some topic then r.handlerAfter else s.onMessageHndlMap[topic]? := by
  obtain ⟨call, token, op⟩ := r
  cases op with
  | subscribe t qos =>
      simp [store, storeSubscribe, Op.handlerTopic, Request.handlerAfter, stdMap_getElem?_insert,
        eq_comm]
  | unsubscribe t =>
      simp [store, storeUnsubscribe, Op.handlerTopic, Request.handlerAfter, stdMap_getElem?_erase,
        eq_comm]
  | publish t qos msg =>
      simp only [store, storePublish, Op.handlerTopic, reduceCtorEq, if_false]
      split_ifs <;> rfl

end Imp

namespace Session

/-- The accepted subscribes and unsubscribes of a topic filter, in order. -/
def requestsOn (w : Session) (topic : StdString) : List Request :=
  w.accepted.filter fun r => r.op.handlerTopic = some topic

/-- The library has answered the request with success. -/
def succeeded (w : Session) (r : Request) : Bool :=
  w.answered.any fun p => p.1 = r && p.2.result

/-- The most recent request on the topic filter that was answered with success. -/
def lastSuccess (w : Session) (topic : StdString) : Option Request :=
  ((w.requestsOn topic).filter w.succeeded).getLast?

/-- The message handlers are those of the subscriptions the broker has. -/
structure AgreesWithBroker (w : Session) : Prop where
  keys : ∀ topic, topic ∈ w.imp.onMessageHndlMap ↔
    ∃ r, w.lastSuccess topic = some r ∧ r.op.kind = .subscribe
  handlers : ∀ topic, w.imp.onMessageHndlMap[topic]?
    = (w.lastSuccess topic).bind Request.handlerAfter

/-- Nothing that failed after the last success has changed the handler: the last request on the
topic filter succeeded, or it is an unsubscribe of a filter that is not subscribed. -/
def LastRequestCounts (w : Session) (topic : StdString) : Prop :=
  ∀ r ∈ (w.requestsOn topic).getLast?, w.succeeded r = true ∨
    r.op.kind = .unsubscribe ∧ ∀ r' ∈ w.lastSuccess topic, r'.op.kind ≠ .subscribe

instance (w : Session) (topic : StdString) : Decidable (w.LastRequestCounts topic) :=
  inferInstanceAs (Decidable (∀ r ∈ (w.requestsOn topic).getLast?, w.succeeded r = true ∨
    r.op.kind = .unsubscribe ∧ ∀ r' ∈ w.lastSuccess topic, r'.op.kind ≠ .subscribe))

variable {w : Session} {bufferSize : Int} {topic : StdString} {r : Request}

theorem mem_requestsOn :
    r ∈ w.requestsOn topic ↔ r ∈ w.accepted ∧ r.op.handlerTopic = some topic := by
  simp [requestsOn]

/-- Only the topic filters of accepted requests need to be looked at. -/
theorem lastRequestCounts_of_accepted
    (h : ∀ r ∈ w.accepted, ∀ topic ∈ r.op.handlerTopic, w.LastRequestCounts topic)
    (topic : StdString) : w.LastRequestCounts topic := by
  intro r hr
  obtain ⟨haccepted, htopic⟩ := mem_requestsOn.mp (List.mem_of_getLast? hr)
  exact h r haccepted topic htopic r hr

theorem lastSuccess_mem (h : w.lastSuccess topic = some r) :
    r ∈ w.requestsOn topic ∧ w.succeeded r = true :=
  List.mem_filter.mp (List.mem_of_getLast? h)

/-- If the last request succeeded, it is the last one that did. -/
theorem lastSuccess_of_succeeded (h : (w.requestsOn topic).getLast? = some r)
    (hr : w.succeeded r = true) : w.lastSuccess topic = some r := by
  obtain ⟨before, hbefore⟩ := List.getLast?_eq_some_iff.mp h
  rw [lastSuccess, hbefore, List.filter_append]
  simp [hr]

theorem handlerAfter_eq_some {call : Nat} :
    r.handlerAfter = some call ↔ r.op.kind = .subscribe ∧ r.call = call := by
  obtain ⟨n, token, op⟩ := r
  cases op <;> simp [Request.handlerAfter, Op.kind]

theorem handlerAfter_eq_none : r.handlerAfter = none ↔ r.op.kind ≠ .subscribe := by
  obtain ⟨n, token, op⟩ := r
  cases op <;> simp [Request.handlerAfter, Op.kind]

/-- What the code does: the handler map follows the last accepted request on a topic. -/
theorem onMessageHndlMap_eq (h : Runs.Reachable step (fun _ a => AtomicStore a) (init bufferSize) w)
    (topic : StdString) :
    w.imp.onMessageHndlMap[topic]?
      = (w.requestsOn topic).getLast?.bind Request.handlerAfter := by
  refine h.invariant_of_reachable (fun w => w.imp.onMessageHndlMap[topic]?
    = (w.requestsOn topic).getLast?.bind Request.handlerAfter) (by simp [init, requestsOn]) ?_
  intro w a w' hreach heq hatomic hstep
  obtain ⟨op, retval, outcome, rfl, rfl⟩ | ⟨op, token, rfl, rfl⟩ | ⟨op, token, rfl, rfl⟩ |
    ⟨r, hr, rfl, rfl⟩ | ⟨r, hr, answer, rfl, rfl⟩ | ⟨token, rfl, rfl⟩ := step_cases hstep
  · exact heq
  · have happend : ((w.accepts ⟨w.calls, token, op⟩).stores ⟨w.calls, token, op⟩).requestsOn topic
        = w.requestsOn topic ++
          [⟨w.calls, token, op⟩].filter fun r => r.op.handlerTopic = some topic :=
      List.filter_append _ _
    rw [happend]
    by_cases htopic : op.handlerTopic = some topic
    · have hlast : (w.requestsOn topic ++ [(⟨w.calls, token, op⟩ : Request)]).getLast?
          = some ⟨w.calls, token, op⟩ := List.getLast?_concat
      simpa [htopic, stores, accepts, hlast] using
        Imp.onMessageHndlMap_store w.imp ⟨w.calls, token, op⟩ topic
    · simpa [htopic, stores, accepts, heq] using
        Imp.onMessageHndlMap_store w.imp ⟨w.calls, token, op⟩ topic
  · exact absurd hatomic id
  · rw [storing_eq_nil (fun _ _ hallowed => hallowed) hreach] at hr
    cases hr
  · exact (congrArg (·[topic]?) (Imp.onMessageHndlMap_answer ..)).trans heq
  · exact heq

/-- On one topic filter, the last accepted request and the last successful one leave the same
handler behind exactly when the last request counts. -/
theorem handlerAfter_eq_iff (hnum : w.Numbered) (topic : StdString) :
    (w.requestsOn topic).getLast?.bind Request.handlerAfter
        = (w.lastSuccess topic).bind Request.handlerAfter ↔ w.LastRequestCounts topic := by
  cases hlast : (w.requestsOn topic).getLast? with
  | none =>
      have hnone : w.lastSuccess topic = none := by
        rw [List.getLast?_eq_none_iff] at hlast
        simp [lastSuccess, hlast]
      simp [LastRequestCounts, hlast, hnone]
  | some r =>
      have hr := mem_requestsOn.mp (List.mem_of_getLast? hlast)
      by_cases hsucceeded : w.succeeded r = true
      · rw [lastSuccess_of_succeeded hlast hsucceeded]
        refine iff_of_true rfl fun r' hr' => Or.inl ?_
        rwa [← Option.some.inj (hlast.symm.trans hr')]
      · have hcounts : w.LastRequestCounts topic ↔ r.op.kind = .unsubscribe ∧
            ∀ r', w.lastSuccess topic = some r' → r'.op.kind ≠ .subscribe := by
          simp [LastRequestCounts, hlast, hsucceeded]
        rw [hcounts, Option.bind_some]
        by_cases hkind : r.op.kind = .subscribe
        · -- the handler of the failed subscribe is not that of any other request
          refine iff_of_false (fun heq => ?_) (by simp [hkind])
          rw [handlerAfter_eq_some.mpr ⟨hkind, rfl⟩] at heq
          obtain ⟨r', hr', hcall⟩ := Option.bind_eq_some_iff.mp heq.symm
          obtain ⟨hmem, hsucceeded'⟩ := lastSuccess_mem hr'
          have hsame := hnum.call_inj r' (mem_requestsOn.mp hmem).1 r hr.1
            (handlerAfter_eq_some.mp hcall).2
          exact hsucceeded (hsame ▸ hsucceeded')
        · have hunsubscribe : r.op.kind = .unsubscribe := by
            obtain ⟨n, token, op⟩ := r
            cases op <;> simp_all [Op.kind, Op.handlerTopic]
          rw [handlerAfter_eq_none.mpr hkind, eq_comm, Option.bind_eq_none_iff]
          simp only [hunsubscribe, true_and, handlerAfter_eq_none]

/-- **The handler map agrees with the broker** exactly when on every topic filter the last request
counts: a subscribe that fails later leaves its handler in the map, and a failed unsubscribe has
removed the handler of a subscription that is still there. -/
theorem agreesWithBroker_iff
    (h : Runs.Reachable step (fun _ a => AtomicStore a) (init bufferSize) w) :
    w.AgreesWithBroker ↔ ∀ topic, w.LastRequestCounts topic := by
  obtain ⟨hnum, _⟩ := ledger_of_atomic ∅ (fun _ _ hallowed => hallowed)
    (fun _ a _ => by cases a <;> simp [DistinctOn]; split <;> simp) h
  constructor
  · intro hagrees topic
    rw [← handlerAfter_eq_iff hnum topic, ← onMessageHndlMap_eq h topic]
    exact hagrees.handlers topic
  · intro hcounts
    have hhandlers : ∀ topic, w.imp.onMessageHndlMap[topic]?
        = (w.lastSuccess topic).bind Request.handlerAfter := fun topic =>
      (onMessageHndlMap_eq h topic).trans ((handlerAfter_eq_iff hnum topic).mpr (hcounts topic))
    refine ⟨fun topic => ?_, hhandlers⟩
    rw [Std.ExtTreeMap.mem_iff_isSome_getElem?, hhandlers topic, Option.isSome_iff_exists]
    simp [Option.bind_eq_some_iff, handlerAfter_eq_some]

/-- Two topics: one subscription is replaced and the replacement succeeds, the other is refused at
once and then unsubscribed in vain. -/
theorem agreesWithBroker_replaced : ∃ w,
    Runs.Reachable step (fun _ a => AtomicStore a) (init 10) w ∧ w.inFlight = [] ∧
      w.imp.onMessageHndlMap.toList = [(bytes "a", 1)] ∧ w.AgreesWithBroker := by
  let actions : List Action :=
    [.call (.subscribe (bytes "a") 0) (.accepted 1), .call (.subscribe (bytes "a") 1) (.accepted 2),
      .call (.subscribe (bytes "b") 0) (.refused (-1)), .answer 1 (.success 1),
      .call (.unsubscribe (bytes "b")) (.accepted 3), .answer 0 .failure, .answer 3 .failure]
  let w := (Runs.run step (fun _ a => AtomicStore a) (init 10) actions).get (by decide +kernel)
  have hw : Runs.Reachable step (fun _ a => AtomicStore a) (init 10) w :=
    Runs.reachable_of_run (Option.some_get _).symm
  exact ⟨w, hw, by decide +kernel, by decide +kernel,
    (agreesWithBroker_iff hw).mpr (lastRequestCounts_of_accepted (by decide +kernel))⟩

/-- A subscription fails after it has been accepted, and its handler stays. -/
theorem failed_subscribe_keeps_handler :
    ¬ ∀ w, Runs.Reachable step (fun _ a => AtomicStore a) (init 10) w → w.inFlight = [] →
      w.AgreesWithBroker := by
  intro hall
  refine Runs.not_forall_reachable (P := fun w : Session => w.inFlight = [] → w.AgreesWithBroker)
    [Action.call (.subscribe (bytes "a") 1) (.accepted 1), Action.answer 0 .failure]
    ⟨_, Option.get_mem (by decide +kernel), fun h => ?_⟩ hall
  obtain ⟨r, hr, _⟩ := ((h (by decide +kernel)).keys (bytes "a")).mp (by decide +kernel)
  exact absurd (Option.isSome_of_eq_some hr) (by decide +kernel)

end Session

end Shapeware.Mqtt
