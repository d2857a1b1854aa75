import Shapeware.Mqtt.Ledger

/-!
# Reports of a message

The library reports twice on a message: `onSend` says that it has been sent, and `delivered` that it
has arrived. Both look the context up under the token, but only `onSend` erases it, so a delivery
that is reported after it finds nothing to call.
-/

namespace Shapeware.Mqtt

open Runs Correlation

/-- A session, and the messages whose delivery has been reported. -/
structure Messenger where
  session : Session
  reported : List Request := []

namespace Messenger

inductive Action
  /-- Anything but a delivery report. -/
  | session (a : Mqtt.Action)
  /-- The library reports the delivery of the message of a call. -/
  | delivered (call : Nat)

def init (bufferSize : Int) : Messenger := { session := Session.init bufferSize }

def delivers (s : Messenger) (r : Request) : Messenger :=
  { session := { s.session with log := s.session.log ++ s.session.imp.delivered r.token }
    reported := s.reported ++ [r] }

def step (s : Messenger) : Action → Option Messenger
  | .session a => (s.session.step a).map fun w => { s with session := w }
  | .delivered call =>
    (s.session.accepted.find? fun r => r.call = call ∧ r.op.kind = .publish ∧ r ∉ s.reported).map
      s.delivers

/-- The calls made so far of the delivery handler of one publish call. -/
def deliveries (s : Messenger) (call : Nat) : List (HandlerCall Nat) :=
  s.session.log.filter fun c => !c.isCompletion && c.hndl == call

/-- A message whose context was stored and whose delivery has been reported: its delivery handler
was called once, and the handler of the send success too, unless that is still to be reported. -/
def ReportsOnce (s : Messenger) : Prop :=
  ∀ r ∈ s.reported, r.call ∉ s.session.dropped → ∀ topic qos msg, r.op = .publish topic qos msg →
    s.deliveries r.call = [.onDelivery r.call topic qos true] ∧
    s.session.completions r.call =
      if r ∈ s.session.inFlight then [] else [.onSend r.call topic qos true]

/-! ### Assumptions and condition -/

/-- The token is not used by a request that is still to be reported on. -/
def FreshToken (s : Messenger) (token : Int) : Prop :=
  s.session.FreshToken token ∧
    ∀ r ∈ s.session.accepted, r.op.kind = .publish → r ∉ s.reported → r.token ≠ token

/-- A token is not reused before both reports have come, the contexts are stored before them, and
what is sent is sent successfully. -/
def ReportingRun (s : Messenger) : Action → Prop
  | .session (.call _ (.accepted token)) => s.FreshToken token
  | .session (.accept _ token) => s.FreshToken token
  | .session (.answer call answer) => answer ≠ .failure ∧ ∀ r ∈ s.session.storing, r.call ≠ call
  | .session (.delivered _) => False
  | .session _ => True
  | .delivered call => ∀ r ∈ s.session.storing, r.call ≠ call

/-- The delivery of a message is reported before its send success. -/
def DeliveredFirst (s : Messenger) (a : Action) : Prop :=
  ∀ r ∈ s.session.accepted, a = .delivered r.call → r.call ∉ s.session.dropped →
    r ∈ s.session.inFlight

instance (s : Messenger) (token : Int) : Decidable (s.FreshToken token) :=
  inferInstanceAs (Decidable (_ ∧ _))

instance (s : Messenger) : ∀ a, Decidable (s.ReportingRun a)
  | .session (.call _ (.accepted token)) => inferInstanceAs (Decidable (s.FreshToken token))
  | .session (.accept _ token) => inferInstanceAs (Decidable (s.FreshToken token))
  | .session (.answer call answer) =>
    inferInstanceAs (Decidable (answer ≠ .failure ∧ ∀ r ∈ s.session.storing, r.call ≠ call))
  | .session (.delivered _) => .isFalse id
  | .session (.call _ (.refused _)) | .session (.store _) => .isTrue trivial
  | .delivered call => inferInstanceAs (Decidable (∀ r ∈ s.session.storing, r.call ≠ call))

variable {s s' : Messenger} {a : Action} {r : Request} {bufferSize : Int}
  {allowed : Messenger → Action → Prop}

/-! ### Steps -/

inductive Steps (s : Messenger) : Action → Messenger → Prop
  | session {a : Mqtt.Action} {w : Session} (hsession : s.session.step a = some w) :
      Steps s (.session a) { s with session := w }
  | delivers {r : Request} (hr : r ∈ s.session.accepted) (hkind : r.op.kind = .publish)
      (hnew : r ∉ s.reported) : Steps s (.delivered r.call) (s.delivers r)

theorem step_cases (h : s.step a = some s') : s.Steps a s' := by
  cases a with
  | session a =>
      obtain ⟨w, hsession, rfl⟩ := Option.map_eq_some_iff.mp h
      exact .session hsession
  | delivered call =>
      obtain ⟨r, hfind, rfl⟩ := Option.map_eq_some_iff.mp h
      have hfound := List.find?_some hfind
      simp only [decide_eq_true_eq] at hfound
      obtain ⟨rfl, hkind, hnew⟩ := hfound
      exact .delivers (List.mem_of_find?_eq_some hfind) hkind hnew

/-- The run of the session, in which a delivery report carries the token of its message. -/
theorem session_of_reachable (hallowed : ∀ s a, allowed s a → s.ReportingRun a)
    (h : Reachable step allowed (init bufferSize) s) :
    Reachable Session.step (fun w a => w.DistinctOn Set.univ a ∧ w.AnswerAfterStore a)
      (Session.init bufferSize) s.session := by
  induction h with
  | refl => exact .refl
  | @tail s s' a _ ha hstep ih =>
      have hrun := hallowed s a ha
      cases step_cases hstep with
      | @session a w hsession =>
          refine .tail a ih ?_ hsession
          cases a with
          | call op retval =>
              cases retval with
              | refused => exact ⟨trivial, trivial⟩
              | accepted token => exact ⟨fun _ => hrun.1, trivial⟩
          | accept op token => exact ⟨fun _ => hrun.1, trivial⟩
          | answer call answer => exact ⟨trivial, hrun.2⟩
          | store | delivered => exact ⟨trivial, trivial⟩
      | @delivers r => exact .tail (.delivered r.token) ih ⟨trivial, trivial⟩ rfl

/-! ### What stays true whatever the order of the reports -/

structure Recorded (s : Messenger) : Prop where
  reported_stored : ∀ r ∈ s.reported, r ∈ s.session.accepted ∧ r ∉ s.session.storing
  succeeded : ∀ p ∈ s.session.answered, p.2 ≠ .failure
  /-- A message that is still to be reported as delivered shares its token with nobody. -/
  alone : ∀ r ∈ s.session.accepted, r.op.kind = .publish → r ∉ s.reported →
    ∀ r' ∈ s.session.inFlight, r'.token = r.token → r' = r
  undelivered : ∀ n, (∀ r ∈ s.reported, r.call ≠ n) → s.deliveries n = []

/-- The request that a step of the session adds, if it adds one. -/
def IsNew (s : Messenger) (r : Request) : Prop :=
  r.call = s.session.calls ∧ s.FreshToken r.token

theorem of_mem_append {l : List Request} {r r' : Request} {P : Request → Prop} (hnew : P r)
    (h : r' ∈ l ++ [r]) : r' ∈ l ∨ P r' := by
  obtain h | rfl := by simpa using h
  · exact .inl h
  · exact .inr hnew

/-- All that the invariants need to know of a step of the session. -/
structure Goes (s : Messenger) (w : Session) : Prop where
  accepted : ∀ r ∈ w.accepted, r ∈ s.session.accepted ∨ s.IsNew r
  inFlight : ∀ r ∈ w.inFlight, r ∈ s.session.inFlight ∨ s.IsNew r
  storing : ∀ r ∈ w.storing, r ∈ s.session.storing ∨ s.IsNew r
  keeps_accepted : ∀ r ∈ s.session.accepted, r ∈ w.accepted
  keeps_dropped : ∀ n ∈ s.session.dropped, n ∈ w.dropped
  answered : ∀ p ∈ w.answered, p ∈ s.session.answered ∨ p.2 ≠ .failure
  deliveries : ∀ n, Messenger.deliveries { s with session := w } n = s.deliveries n

theorem mem_dropped_stores {w : Session} {r : Request} {n : Nat} (h : n ∈ w.dropped) :
    n ∈ (w.stores r).dropped := by
  rw [Session.stores]
  split_ifs
  · exact List.mem_append_left _ h
  · exact h

theorem goes_of_step {a : Mqtt.Action} {w : Session} (hrun : s.ReportingRun (.session a))
    (hstep : s.session.step a = some w) : s.Goes w := by
  obtain ⟨op, retval, outcome, rfl, rfl⟩ | ⟨op, token, rfl, rfl⟩ | ⟨op, token, rfl, rfl⟩ |
    ⟨r, hr, rfl, rfl⟩ | ⟨r, hr, answer, rfl, rfl⟩ | ⟨token, rfl, rfl⟩ := Session.step_cases hstep
  · exact ⟨fun _ => .inl, fun _ => .inl, fun _ => .inl, fun _ => id, fun _ => id, fun _ => .inl,
      fun _ => rfl⟩
  · have hnew : s.IsNew ⟨s.session.calls, token, op⟩ := ⟨rfl, hrun⟩
    exact ⟨fun _ => of_mem_append hnew, fun _ => of_mem_append hnew,
      fun _ hmem => of_mem_append hnew (List.mem_of_mem_filter hmem),
      fun _ hr => List.mem_append_left _ hr, fun _ => mem_dropped_stores, fun _ => .inl,
      fun _ => rfl⟩
  · have hnew : s.IsNew ⟨s.session.calls, token, op⟩ := ⟨rfl, hrun⟩
    exact ⟨fun _ => of_mem_append hnew, fun _ => of_mem_append hnew, fun _ => of_mem_append hnew,
      fun _ hr => List.mem_append_left _ hr, fun _ => id, fun _ => .inl, fun _ => rfl⟩
  · exact ⟨fun _ => .inl, fun _ => .inl, fun _ hmem => .inl (List.mem_of_mem_filter hmem),
      fun _ => id, fun _ => mem_dropped_stores, fun _ => .inl, fun _ => rfl⟩
  · refine ⟨fun _ => .inl, fun _ hmem => .inl (List.mem_of_mem_filter hmem), fun _ => .inl,
      fun _ => id, fun _ => id, fun p hp => ?_, fun n => ?_⟩
    · obtain hp | rfl := by simpa [Session.answers] using hp
      · exact .inl hp
      · exact .inr hrun.1
    · have hcompletions : ∀ c ∈ (s.session.imp.answer r.op.kind r.token answer).2,
          ¬ (!c.isCompletion && c.hndl == n) = true := by
        intro c hc
        rw [Imp.answer_snd] at hc
        obtain ⟨context, _, rfl⟩ := Option.map_eq_some_iff.mp (Option.mem_toList.mp hc)
        simp
      simp only [Messenger.deliveries, Session.answers, List.filter_append,
        List.filter_eq_nil_iff.mpr hcompletions, List.append_nil]
  · exact absurd hrun id

theorem isPublish {op : Op} (h : op.kind = .publish) :
    ∃ topic qos msg, op = .publish topic qos msg := by
  cases op with
  | publish topic qos msg => exact ⟨topic, qos, msg, rfl⟩
  | _ => cases h

namespace Recorded

theorem delivered_eq (h : s.Recorded) (hcor : s.session.Correlated Set.univ)
    (hr : r ∈ s.session.accepted) (hnew : r ∉ s.reported) (hstored : r ∉ s.session.storing)
    {topic : StdString} {qos : Int} {msg : List UInt8} (hop : r.op = .publish topic qos msg) :
    s.session.imp.delivered r.token
      = if r ∈ s.session.inFlight ∧ r.call ∉ s.session.dropped then
          [.onDelivery r.call topic qos true]
        else [] := by
  have hkey : r.key = (.publish, r.token) := by simp [Request.key, hop, Op.kind]
  split_ifs with hretained
  · have hfound := hcor.tracks.eq_some (r := r) trivial ⟨hretained.1, hstored, hretained.2⟩
    rw [hkey, Request.context, hop] at hfound
    rw [Imp.delivered_eq, Imp.contextAt_publish.mp hfound]
    rfl
  · have hnone : s.session.imp.contextAt (.publish, r.token) = none := by
      refine hcor.tracks.eq_none trivial fun r' hr' heq => ?_
      obtain rfl := h.alone r hr (by simp [hop, Op.kind]) hnew r' hr'.1 (congrArg Prod.snd heq)
      exact hretained ⟨hr'.1, hr'.2.2⟩
    rw [Imp.delivered_eq]
    simpa [Imp.contextAt] using hnone

theorem undelivered_of_new (h : s.Recorded) (hnum : s.session.Numbered)
    (hr : r ∈ s.session.accepted) (hnew : r ∉ s.reported) : s.deliveries r.call = [] := by
  refine h.undelivered _ fun r' hmem hcall => hnew ?_
  exact hnum.call_inj r' (h.reported_stored r' hmem).1 r hr hcall ▸ hmem

/-- The handler of the send success is called once, when the success is reported. -/
theorem completions_eq (h : s.Recorded) (hnum : s.session.Numbered)
    (hcor : s.session.Correlated Set.univ) (hr : r ∈ s.session.accepted)
    (hkept : r.call ∉ s.session.dropped) {topic : StdString} {qos : Int} {msg : List UInt8}
    (hop : r.op = .publish topic qos msg) :
    s.session.completions r.call
      = if r ∈ s.session.inFlight then [] else [.onSend r.call topic qos true] := by
  split_ifs with hflight
  · exact hcor.completions_inFlight r hflight trivial
  · obtain ⟨answer, hanswer⟩ := (hnum.accepted_cases r hr).resolve_left hflight
    rw [hcor.completions_answered _ hanswer trivial hkept, Request.completion, Request.context, hop]
    cases answer with
    | success qos => rfl
    | failure => exact absurd rfl (h.succeeded _ hanswer)

theorem deliveries_delivers (h : s.Recorded) (hcor : s.session.Correlated Set.univ)
    (hr : r ∈ s.session.accepted) (hnew : r ∉ s.reported) (hstored : r ∉ s.session.storing)
    {topic : StdString} {qos : Int} {msg : List UInt8} (hop : r.op = .publish topic qos msg) (n : Nat) :
    (s.delivers r).deliveries n = s.deliveries n ++
      if r.call = n ∧ r ∈ s.session.inFlight ∧ r.call ∉ s.session.dropped then
        [.onDelivery r.call topic qos true]
      else [] := by
  simp only [deliveries, delivers, List.filter_append, h.delivered_eq hcor hr hnew hstored hop]
  congr 1
  by_cases hretained : r ∈ s.session.inFlight ∧ r.call ∉ s.session.dropped
  · rw [if_pos hretained]
    by_cases hn : r.call = n
    · rw [if_pos ⟨hn, hretained⟩]
      simp [HandlerCall.isCompletion, HandlerCall.hndl, hn]
    · rw [if_neg fun hall => hn hall.1]
      simp [HandlerCall.isCompletion, HandlerCall.hndl, hn]
  · rw [if_neg hretained, if_neg fun hall => hretained hall.2, List.filter_nil]

theorem step (h : s.Recorded) (hnum : s.session.Numbered) (hcor : s.session.Correlated Set.univ)
    (hnum' : s'.session.Numbered) (hrun : s.ReportingRun a) (hstep : s.step a = some s') :
    s'.Recorded := by
  cases step_cases hstep with
  | @session a w hsession =>
      obtain ⟨haccepted, hflight, hstoring, hkeeps, _, hanswered, hsame⟩ := goes_of_step hrun hsession
      refine ⟨fun r hr => ?_, fun p hp => ?_, fun r hr hkind hnew r' hr' htoken => ?_, fun n hn => ?_⟩
      · obtain ⟨hmem, hnot⟩ := h.reported_stored r hr
        refine ⟨hkeeps r hmem, fun hstore => ?_⟩
        obtain hold | ⟨hcall, _⟩ := hstoring r hstore
        · exact hnot hold
        · exact absurd hcall (hnum.call_lt r hmem).ne
      · exact (hanswered p hp).elim (h.succeeded p) id
      · obtain hold | ⟨hcall, hfresh⟩ := haccepted r hr <;>
          obtain hold' | ⟨hcall', hfresh'⟩ := hflight r' hr'
        · exact h.alone r hold hkind hnew r' hold' htoken
        · exact absurd htoken.symm (hfresh'.2 r hold hkind hnew)
        · exact absurd htoken (hfresh.1 r' hold')
        · exact hnum'.call_inj r' (hnum'.inFlight_accepted r' hr') r hr (hcall'.trans hcall.symm)
      · exact (hsame n).trans (h.undelivered n hn)
  | @delivers r hr hkind hnew =>
      have hstored : r ∉ s.session.storing := fun hmem => hrun r hmem rfl
      obtain ⟨topic, qos, msg, hop⟩ := isPublish hkind
      refine ⟨fun r' hr' => ?_, h.succeeded, fun r' hr' hkind' hnew' => ?_, fun n hn => ?_⟩
      · obtain hr' | rfl := by simpa [delivers] using hr'
        · exact h.reported_stored r' hr'
        · exact ⟨hr, hstored⟩
      · exact h.alone r' hr' hkind' fun hmem => hnew' (List.mem_append_left _ hmem)
      · have hother : r.call ≠ n := hn r (by simp [delivers])
        rw [h.deliveries_delivers hcor hr hnew hstored hop, if_neg fun hcall => hother hcall.1,
          List.append_nil]
        exact h.undelivered n fun r' hr' => hn r' (List.mem_append_left _ hr')

end Recorded

theorem ledger_of_reachable (hallowed : ∀ s a, allowed s a → s.ReportingRun a)
    (h : Reachable step allowed (init bufferSize) s) :
    s.session.Numbered ∧ s.session.Correlated Set.univ :=
  Session.ledger _ (session_of_reachable hallowed h)

theorem recorded_of_reachable (hallowed : ∀ s a, allowed s a → s.ReportingRun a)
    (h : Reachable step allowed (init bufferSize) s) : s.Recorded := by
  refine h.invariant_of_reachable Recorded (by constructor <;> simp [init, Session.init, deliveries]) ?_
  intro s a s' hreach hrec ha hstep
  obtain ⟨hnum, hcor⟩ := ledger_of_reachable hallowed hreach
  exact hrec.step hnum hcor (ledger_of_reachable hallowed (.tail a hreach ha hstep)).1
    (hallowed s a ha) hstep

/-! ### The reports -/

/-- The delivery handler of every message that was stored and reported has been called once. -/
theorem deliveries_eq
    (h : Reachable step (fun s a => s.ReportingRun a ∧ s.DeliveredFirst a) (init bufferSize) s) :
    ∀ r ∈ s.reported, r.call ∉ s.session.dropped → ∀ topic qos msg, r.op = .publish topic qos msg →
      s.deliveries r.call = [.onDelivery r.call topic qos true] := by
  refine h.invariant_of_reachable (fun s => ∀ r ∈ s.reported, r.call ∉ s.session.dropped →
    ∀ topic qos msg, r.op = .publish topic qos msg →
      s.deliveries r.call = [.onDelivery r.call topic qos true]) (by simp [init]) ?_
  intro s a s' hreach hold hallowed hstep r' hr' hkept topic qos msg hop
  have hrec := recorded_of_reachable (fun _ _ hallowed => hallowed.1) hreach
  obtain ⟨hnum, hcor⟩ := ledger_of_reachable (fun _ _ hallowed => hallowed.1) hreach
  cases step_cases hstep with
  | @session a w hsession =>
      have hgoes := goes_of_step hallowed.1 hsession
      rw [hgoes.deliveries]
      exact hold r' hr' (fun hdropped => hkept (hgoes.keeps_dropped _ hdropped)) topic qos msg hop
  | @delivers r hr hkind hnew =>
      have hstored : r ∉ s.session.storing := fun hmem => hallowed.1 r hmem rfl
      obtain hr' | rfl := by simpa [delivers] using hr'
      · obtain ⟨topic', qos', msg', hop'⟩ := isPublish hkind
        have hne : r.call ≠ r'.call := fun hcall =>
          hnew (hnum.call_inj r hr r' (hrec.reported_stored r' hr').1 hcall ▸ hr')
        rw [hrec.deliveries_delivers hcor hr hnew hstored hop', if_neg fun hcall => hne hcall.1,
          List.append_nil]
        exact hold r' hr' hkept topic qos msg hop
      · have hflight := hallowed.2 r' hr rfl hkept
        rw [hrec.deliveries_delivers hcor hr hnew hstored hop, if_pos ⟨rfl, hflight, hkept⟩,
          hrec.undelivered_of_new hnum hr hnew, List.nil_append]

/-- **The reports of a message.** In a run in which a token is not reused before both reports on it
have come, every message that was stored and reported as delivered has its delivery handler and its
send handler called once, with its own topic and QoS, if and only if every delivery is reported
before the send success of its message. -/
theorem reportsOnce_iff (s : Messenger) :
    Keeps step ReportingRun ReportsOnce (init bufferSize) s ↔
      Reachable step (fun s a => s.ReportingRun a ∧ s.DeliveredFirst a) (init bufferSize) s := by
  refine keeps_iff (fun s h r hr hkept topic qos msg hop => ?_)
    fun s a s' h hrun hstep hlate honce => ?_
  · have hrec := recorded_of_reachable (fun _ _ hallowed => hallowed.1) h
    obtain ⟨hnum, hcor⟩ := ledger_of_reachable (fun _ _ hallowed => hallowed.1) h
    exact ⟨deliveries_eq h r hr hkept topic qos msg hop,
      hrec.completions_eq hnum hcor (hrec.reported_stored r hr).1 hkept hop⟩
  · have hrec := recorded_of_reachable (fun _ _ hallowed => hallowed.1) h
    obtain ⟨hnum, hcor⟩ := ledger_of_reachable (fun _ _ hallowed => hallowed.1) h
    simp only [DeliveredFirst, not_forall] at hlate
    obtain ⟨r, hr, ha, hkept, hsent⟩ := hlate
    cases step_cases hstep with
    | session => cases ha
    | @delivers r' hr' hkind hnew =>
        obtain rfl := hnum.call_inj r' hr' r hr (Action.delivered.inj ha)
        have hstored : r' ∉ s.session.storing := fun hmem => hrun r' hmem rfl
        obtain ⟨topic, qos, msg, hop⟩ := isPublish hkind
        have hbefore : s.deliveries r'.call = [] := hrec.undelivered_of_new hnum hr' hnew
        obtain ⟨hdelivered, _⟩ := honce r' (by simp [delivers]) hkept topic qos msg hop
        rw [hrec.deliveries_delivers hcor hr' hnew hstored hop, if_neg fun hall => hsent hall.2.1,
          hbefore] at hdelivered
        cases hdelivered

/-- A message is sent before it arrives, as messages of QoS 1 may be reported: its delivery handler
is never called. -/
theorem delivery_after_send_is_lost :
    ¬ ∀ s, Reachable step ReportingRun (init 1024) s → s.ReportsOnce := by
  refine Runs.not_forall_reachable
    [.session (.call (.publish (bytes "a") 1 [1]) (.accepted 1)),
      .session (.answer 0 (.success 1)), .delivered 0]
    ⟨_, Option.get_mem (by decide +kernel), fun honce => ?_⟩
  obtain ⟨hdelivered, _⟩ := honce ⟨0, 1, .publish (bytes "a") 1 [1]⟩ (by decide +kernel)
    (by decide +kernel) (bytes "a") 1 [1] rfl
  exact absurd hdelivered (by decide +kernel)

end Messenger

end Shapeware.Mqtt
