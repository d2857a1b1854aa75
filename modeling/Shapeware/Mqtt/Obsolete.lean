import Shapeware.Mqtt.Ledger

/-!
# The obsolete subscribe

`subscribe(topic, qos)` asks the newer overload and gives it a lambda that passes the outcome on to
the handler registered with `registerOnSubscribeHandler`. The lambda takes the result and does not
use it: the handler is told `true` whatever the library has answered.
-/

namespace Shapeware.Mqtt

open Correlation Runs

/-! ### The contexts of some of the requests -/

namespace Session

variable {w : Session} {r : Request} {calls calls' : List Nat}

/-- The requests in flight, and those whose contexts are still to be stored. -/
def pending (w : Session) : Set Request := {r | r ∈ w.inFlight ∨ r ∈ w.storing}

/-- No pending request has this token. -/
def UnusedToken (w : Session) (token : Int) : Prop :=
  w.FreshToken token ∧ ∀ r ∈ w.storing, r.token ≠ token

instance (w : Session) (token : Int) : Decidable (w.UnusedToken token) :=
  inferInstanceAs (Decidable (w.FreshToken token ∧ ∀ r ∈ w.storing, r.token ≠ token))

/-- Pending requests have distinct tokens. -/
def DistinctPending (w : Session) : Action → Prop
  | .call _ (.accepted token) => w.UnusedToken token
  | .accept _ token => w.UnusedToken token
  | _ => True

instance (w : Session) : ∀ a, Decidable (w.DistinctPending a)
  | .call _ (.accepted token) => inferInstanceAs (Decidable (w.UnusedToken token))
  | .accept _ token => inferInstanceAs (Decidable (w.UnusedToken token))
  | .call _ (.refused _) | .store _ | .answer _ _ | .delivered _ => .isTrue trivial

/-- The answers to the requests of some calls find the contexts of these requests, whatever becomes
of the contexts of the others. -/
structure Awaits (calls : List Nat) (w : Session) : Prop where
  distinct : Distinct Set.univ Request.token w.pending
  storing_inFlight : ∀ r ∈ w.storing, r.call ∈ calls → r ∈ w.inFlight
  found : ∀ r ∈ w.inFlight, r.call ∈ calls → r ∉ w.storing →
    w.imp.contextAt r.key = some r.context
  within : Within Request.key Request.context w.imp.contextAt
    {r | r ∈ w.accepted ∧ (r.call ∈ calls → r ∈ w.inFlight)}

namespace Awaits

theorem init (bufferSize : Int) : (Session.init bufferSize).Awaits [] := by
  have hempty : (Session.init bufferSize).imp.contextAt = fun _ => none := by
    funext ⟨kind, token⟩
    cases kind <;> simp [Session.init, Imp.contextAt]
  refine ⟨by simp [Session.init, pending, Distinct], by simp, by simp, hempty ▸ Within.empty⟩

/-- Only the calls made so far matter. -/
theorem congr (h : w.Awaits calls) (hnum : w.Numbered)
    (hcalls : ∀ n < w.calls, n ∈ calls' ↔ n ∈ calls) : w.Awaits calls' := by
  have hold {r : Request} (hr : r ∈ w.accepted) (hmem : r.call ∈ calls') : r.call ∈ calls :=
    (hcalls _ (hnum.call_lt r hr)).mp hmem
  refine ⟨h.distinct, fun r hr hmem => ?_, fun r hr hmem => ?_, h.within.mono ?_⟩
  · exact h.storing_inFlight r hr (hold (hnum.storing_accepted r hr) hmem)
  · exact h.found r hr (hold (hnum.inFlight_accepted r hr) hmem)
  · rintro r ⟨hr, hflight⟩
    exact ⟨hr, fun hmem => hflight (hold hr hmem)⟩

theorem accepts (h : w.Awaits calls) {token : Int} (op : Op) (hunused : w.UnusedToken token) :
    (w.accepts ⟨w.calls, token, op⟩).Awaits calls := by
  refine ⟨?_, fun r hr hmem => ?_, fun r hr hmem hstored => ?_, h.within.mono ?_⟩
  · have hset : (w.accepts ⟨w.calls, token, op⟩).pending
        = insert ⟨w.calls, token, op⟩ w.pending := by
      ext r
      simp only [pending, Session.accepts, List.mem_append, List.mem_singleton, Set.mem_ofPred_eq,
        Set.mem_insert_iff]
      tauto
    rw [hset]
    exact h.distinct.insert fun _ r hr => hr.elim (hunused.1 r) (hunused.2 r)
  · obtain hr | rfl := by simpa [Session.accepts] using hr
    · exact List.mem_append_left _ (h.storing_inFlight r hr hmem)
    · simp [Session.accepts]
  · simp only [Session.accepts, List.mem_append, List.mem_singleton, not_or] at hr hstored
    exact h.found r (hr.resolve_right hstored.2) hmem hstored.1
  · rintro r ⟨hr, hflight⟩
    exact ⟨List.mem_append_left _ hr, fun hmem => List.mem_append_left _ (hflight hmem)⟩

theorem stores (h : w.Awaits calls) (hnum : w.Numbered) (hr : r ∈ w.storing)
    (hkept : r.call ∈ calls → w.imp.drops r.op = false) : (w.stores r).Awaits calls := by
  have haccepted := hnum.storing_accepted r hr
  have hsub {r' : Request} (hr' : r' ∈ (w.stores r).storing) : r' ∈ w.storing :=
    List.mem_of_mem_filter hr'
  have hcontext : (w.stores r).imp.contextAt = _ := Imp.contextAt_store w.imp r.op r.token r.call
  refine ⟨h.distinct.mono fun r' hr' => hr'.imp_right hsub,
    fun r' hr' => h.storing_inFlight r' (hsub hr'), fun r' hr' hmem hstored => ?_, ?_⟩
  · rw [hcontext]
    by_cases heq : r' = r
    · subst heq
      rw [if_neg (by simp [hkept hmem])]
      exact Function.update_self ..
    · have hbefore : r' ∉ w.storing := fun hmem' => hstored <| List.mem_filter.mpr
        ⟨hmem', by simpa using hnum.call_ne haccepted (hnum.inFlight_accepted r' hr') heq⟩
      have hkey : r'.key ≠ (r.op.kind, r.token) := fun hkey =>
        heq (h.distinct r' (.inl hr') r (.inr hr) trivial (congrArg Prod.snd hkey))
      split_ifs
      · exact h.found r' hr' hmem hbefore
      · rw [Function.update_of_ne hkey]
        exact h.found r' hr' hmem hbefore
  · rw [hcontext]
    split_ifs
    · exact h.within
    · exact h.within.update_some ⟨haccepted, h.storing_inFlight r hr⟩

theorem answers (h : w.Awaits calls) (hnum : w.Numbered) (hr : r ∈ w.inFlight)
    (hstored : r.call ∈ calls → r ∉ w.storing) (answer : Answer) :
    (w.answers r answer).Awaits calls := by
  have haccepted := hnum.inFlight_accepted r hr
  have hflight {r' : Request} (hr' : r' ∈ w.inFlight) (hne : r' ≠ r) :
      r' ∈ (w.answers r answer).inFlight :=
    List.mem_filter.mpr
      ⟨hr', by simpa using hnum.call_ne haccepted (hnum.inFlight_accepted r' hr') hne⟩
  have hcontext : (w.answers r answer).imp.contextAt = _ :=
    Imp.contextAt_answer w.imp r.op.kind r.token answer
  refine ⟨h.distinct.mono fun r' hr' => hr'.imp_left List.mem_of_mem_filter, fun r' hr' hmem => ?_,
    fun r' hr' hmem hnot => ?_, fun key c hc => ?_⟩
  · refine hflight (h.storing_inFlight r' hr' hmem) ?_
    rintro rfl
    exact hstored hmem hr'
  · have hbefore := List.mem_of_mem_filter hr'
    have hkey : r'.key ≠ (r.op.kind, r.token) := by
      intro hkey
      obtain rfl := h.distinct r' (.inl hbefore) r (.inl hr) trivial (congrArg Prod.snd hkey)
      simp [Session.answers] at hr'
    rw [hcontext, Function.update_of_ne hkey]
    exact h.found r' hbefore hmem hnot
  · rw [hcontext] at hc
    by_cases hkey : key = (r.op.kind, r.token)
    · simp [hkey] at hc
    · rw [Function.update_of_ne hkey] at hc
      obtain ⟨r', ⟨hr', hmem⟩, rfl, hr'c⟩ := h.within _ _ hc
      have hne : r' ≠ r := fun heq => hkey (heq ▸ rfl)
      exact ⟨r', ⟨hr', fun hcall => hflight (hmem hcall) hne⟩, rfl, hr'c⟩

theorem step (h : w.Awaits calls) (hnum : w.Numbered) {a : Action} {w' : Session}
    (hdistinct : w.DistinctPending a)
    (hkept : ∀ r ∈ w'.accepted, r.call ∈ calls → ∃ topic qos, r.op = .subscribe topic qos)
    (hstored : ∀ call ∈ calls, ∀ answer, a = .answer call answer → ∀ r ∈ w.storing, r.call ≠ call)
    (hstep : w.step a = some w') : w'.Awaits calls := by
  have hdrops (imp : Imp Nat) {r : Request} (hr : r ∈ w'.accepted) (hmem : r.call ∈ calls) :
      imp.drops r.op = false := by
    obtain ⟨topic, qos, hop⟩ := hkept r hr hmem
    rw [hop]
    rfl
  obtain ⟨op, retval, outcome, rfl, rfl⟩ | ⟨op, token, rfl, rfl⟩ | ⟨op, token, rfl, rfl⟩ |
    ⟨r, hr, rfl, rfl⟩ | ⟨r, hr, answer, rfl, rfl⟩ | ⟨token, rfl, rfl⟩ := Session.step_cases hstep
  · exact ⟨h.distinct, h.storing_inFlight, h.found, h.within⟩
  · refine (h.accepts op hdistinct).stores (hnum.accepts token op) (by simp [Session.accepts]) ?_
    exact hdrops _ (by simp [Session.accepts, Session.stores])
  · exact h.accepts op hdistinct
  · exact h.stores hnum hr (hdrops _ (hnum.storing_accepted r hr))
  · exact h.answers hnum hr (fun hmem hmem' => hstored r.call hmem answer rfl r hmem' rfl) answer
  · exact ⟨h.distinct, h.storing_inFlight, h.found, h.within⟩

end Awaits

end Session

/-! ### The obsolete overload -/

/-- A call of a handler that was registered with `registerOnSubscribeHandler`. -/
structure SubscribeReport where
  hndl : Nat
  topic : StdString
  result : Bool
deriving DecidableEq

/-- A session some of whose subscriptions are made through the obsolete overload. -/
structure Subscriber where
  session : Session
  /-- The calls of the obsolete overload. -/
  obsolete : List Nat := []
  /-- `m_mqttOnSubscribeHandlerFunc`. -/
  registered : Option Nat := none
  reports : List SubscribeReport := []
  /-- One report for each answered obsolete subscription, to the handler registered then. -/
  owed : List SubscribeReport := []

namespace Subscriber

inductive Action
  | subscribe (topic : StdString) (qos : Int) (retval : LibraryResult)
  /-- An obsolete subscription whose context is still to be stored. -/
  | acceptSubscribe (topic : StdString) (qos : Int) (token : Int)
  /-- Anything else the session does, calls of the newer overload included. -/
  | session (a : Mqtt.Action)
  | registerOnSubscribeHandler (hndl : Nat)
  | unregisterOnSubscribeHandler

def init (bufferSize : Int) : Subscriber := { session := Session.init bufferSize }

/-- The lambda `onSubscribe` of the obsolete `subscribe`. -/
def onSubscribe (s : Subscriber) (topic : StdString) (_qos : Int) (_result : Bool) :
    List SubscribeReport :=
  (s.registered.map fun hndl => ⟨hndl, topic, true⟩).toList

/-- The lambda is what a context of an obsolete subscription calls. -/
def calls (s : Subscriber) : HandlerCall Nat → List SubscribeReport
  | .onSubscribe call topic qos result =>
    if call ∈ s.obsolete then s.onSubscribe topic qos result else []
  | _ => []

def owes (s : Subscriber) (r : Request) (answer : Answer) : List SubscribeReport :=
  match r.op with
  | .subscribe topic _ =>
    if r.call ∈ s.obsolete then
      (s.registered.map fun hndl => ⟨hndl, topic, answer.result⟩).toList
    else []
  | _ => []

/-- What a step of the session calls and answers. -/
def advances (s : Subscriber) (w : Session) : Subscriber :=
  { s with
    session := w
    reports := s.reports ++ (w.log.drop s.session.log.length).flatMap s.calls
    owed := s.owed ++
      (w.answered.drop s.session.answered.length).flatMap fun p => s.owes p.1 p.2 }

def asks (s : Subscriber) (w : Session) : Subscriber :=
  { s.advances w with obsolete := s.obsolete ++ [s.session.calls] }

def step (s : Subscriber) : Action → Option Subscriber
  | .subscribe topic qos retval => (s.session.step (.call (.subscribe topic qos) retval)).map s.asks
  | .acceptSubscribe topic qos token =>
    (s.session.step (.accept (.subscribe topic qos) token)).map s.asks
  | .session a => (s.session.step a).map s.advances
  | .registerOnSubscribeHandler hndl => some { s with registered := some hndl }
  | .unregisterOnSubscribeHandler => some { s with registered := none }

/-! ### Assumptions and condition -/

def Action.onSession : Action → Option Mqtt.Action
  | .subscribe topic qos retval => some (.call (.subscribe topic qos) retval)
  | .acceptSubscribe topic qos token => some (.accept (.subscribe topic qos) token)
  | .session a => some a
  | _ => none

/-- The answer to an obsolete subscription comes only after its context has been stored. -/
def AnswerAfterStore (s : Subscriber) : Mqtt.Action → Prop
  | .answer call _ => call ∈ s.obsolete → ∀ r ∈ s.session.storing, r.call ≠ call
  | _ => True

/-- Pending requests have distinct tokens, and the answers to obsolete subscriptions come after the
contexts are stored. -/
def LibraryRun (s : Subscriber) (a : Action) : Prop :=
  ∀ b ∈ a.onSession, s.session.DistinctPending b ∧ s.AnswerAfterStore b

/-- No obsolete subscription is answered with a failure while a handler is registered. -/
def NoFailure (s : Subscriber) (a : Action) : Prop :=
  ∀ call, a = .session (.answer call .failure) → call ∈ s.obsolete → s.registered = none

instance (s : Subscriber) : ∀ a, Decidable (s.AnswerAfterStore a)
  | .answer call _ =>
    inferInstanceAs (Decidable (call ∈ s.obsolete → ∀ r ∈ s.session.storing, r.call ≠ call))
  | .call _ _ | .accept _ _ | .store _ | .delivered _ => .isTrue trivial

instance (s : Subscriber) (a : Action) : Decidable (s.LibraryRun a) :=
  inferInstanceAs (Decidable (∀ b ∈ a.onSession, _))

variable {s s' : Subscriber} {a : Action} {w : Session} {r : Request} {bufferSize : Int}
  {allowed : Subscriber → Action → Prop}

/-! ### What a step does -/

theorem advances_of_quiet (hlog : w.log = s.session.log)
    (hanswered : w.answered = s.session.answered) :
    (s.advances w).reports = s.reports ∧ (s.advances w).owed = s.owed := by
  simp [advances, hlog, hanswered]

/-- A call is never answered in the same step. -/
theorem quiet_of_asks {op : Op} {a : Mqtt.Action} (hstep : s.session.step a = some w)
    (ha : (∃ retval, a = .call op retval) ∨ ∃ token, a = .accept op token) :
    w.log = s.session.log ∧ w.answered = s.session.answered ∧ w.calls = s.session.calls + 1 ∧
      (w.accepted = s.session.accepted ∨
        ∃ token, w.accepted = s.session.accepted ++ [⟨s.session.calls, token, op⟩]) := by
  obtain ⟨op', retval', outcome, rfl, rfl⟩ | ⟨op', token', rfl, rfl⟩ | ⟨op', token', rfl, rfl⟩ |
    ⟨r, _, rfl, rfl⟩ | ⟨r, _, answer, rfl, rfl⟩ | ⟨token', rfl, rfl⟩ := Session.step_cases hstep
  · exact ⟨rfl, rfl, rfl, .inl rfl⟩
  · obtain ⟨retval, ha⟩ | ⟨token, ha⟩ := ha
    · obtain ⟨rfl, rfl⟩ := Mqtt.Action.call.inj ha
      exact ⟨rfl, rfl, rfl, .inr ⟨token', rfl⟩⟩
    · cases ha
  · obtain ⟨retval, ha⟩ | ⟨token, ha⟩ := ha
    · cases ha
    · obtain ⟨rfl, rfl⟩ := Mqtt.Action.accept.inj ha
      exact ⟨rfl, rfl, rfl, .inr ⟨token', rfl⟩⟩
  all_goals obtain ⟨retval, ha⟩ | ⟨token, ha⟩ := ha <;> cases ha

/-- All that a step can do. -/
inductive Steps (s : Subscriber) : Action → Subscriber → Prop
  | asks {a : Action} {b : Mqtt.Action} {w : Session} {topic : StdString} {qos : Int}
      (hon : a.onSession = some b) (hsession : s.session.step b = some w)
      (hask : (∃ retval, b = .call (.subscribe topic qos) retval) ∨
        ∃ token, b = .accept (.subscribe topic qos) token) : Steps s a (s.asks w)
  | advances {b : Mqtt.Action} {w : Session} (hsession : s.session.step b = some w) :
      Steps s (.session b) (s.advances w)
  | registers {a : Action} (registered : Option Nat) (hon : a.onSession = none) :
      Steps s a { s with registered }

theorem step_cases (h : s.step a = some s') : s.Steps a s' := by
  cases a with
  | subscribe topic qos retval =>
      obtain ⟨w, hsession, rfl⟩ := Option.map_eq_some_iff.mp h
      exact .asks rfl hsession (.inl ⟨retval, rfl⟩)
  | acceptSubscribe topic qos token =>
      obtain ⟨w, hsession, rfl⟩ := Option.map_eq_some_iff.mp h
      exact .asks rfl hsession (.inr ⟨token, rfl⟩)
  | session a =>
      obtain ⟨w, hsession, rfl⟩ := Option.map_eq_some_iff.mp h
      exact .advances hsession
  | registerOnSubscribeHandler hndl =>
      obtain rfl := Option.some.inj h
      exact .registers (some hndl) rfl
  | unregisterOnSubscribeHandler =>
      obtain rfl := Option.some.inj h
      exact .registers none rfl

/-! ### Invariants -/

/-- The obsolete calls are subscriptions among the calls made so far, whose answers find their
contexts. -/
structure Recorded (s : Subscriber) : Prop where
  numbered : s.session.Numbered
  lt_calls : ∀ call ∈ s.obsolete, call < s.session.calls
  subscribes : ∀ r ∈ s.session.accepted, r.call ∈ s.obsolete → ∃ topic qos, r.op = .subscribe topic qos
  awaits : s.session.Awaits s.obsolete

theorem AnswerAfterStore.ne {call : Nat} {answer : Answer} {b : Mqtt.Action}
    (h : s.AnswerAfterStore b) (hcall : call ∈ s.obsolete) (hb : b = .answer call answer) :
    ∀ r ∈ s.session.storing, r.call ≠ call := by
  subst hb
  exact h hcall

namespace Recorded

theorem init (bufferSize : Int) : (init bufferSize).Recorded :=
  ⟨Session.numbered_init bufferSize, nofun, nofun, .init bufferSize⟩

theorem asks {b : Mqtt.Action} {topic : StdString} {qos : Int} (h : s.Recorded)
    (hdistinct : s.session.DistinctPending b) (hsession : s.session.step b = some w)
    (hask : (∃ retval, b = .call (.subscribe topic qos) retval) ∨
      ∃ token, b = .accept (.subscribe topic qos) token) : (s.asks w).Recorded := by
  obtain ⟨_, _, hcalls, haccepted⟩ := quiet_of_asks hsession hask
  have hsub : ∀ r ∈ w.accepted, r.call ∈ s.obsolete ++ [s.session.calls] →
      ∃ topic qos, r.op = .subscribe topic qos := by
    intro r hr hcall
    have hcases : r ∈ s.session.accepted ∨ r.op = .subscribe topic qos := by
      obtain hsame | ⟨token, hnew⟩ := haccepted
      · exact .inl (hsame ▸ hr)
      · obtain hr | rfl := by simpa [hnew] using hr
        · exact .inl hr
        · exact .inr rfl
    obtain hold | hop := hcases
    · obtain hcall | hcall := by simpa using hcall
      · exact h.subscribes r hold hcall
      · exact absurd (h.numbered.call_lt r hold) (by omega)
    · exact ⟨topic, qos, hop⟩
  refine ⟨h.numbered.step hsession, fun call hcall => ?_, hsub, ?_⟩
  · obtain hcall | rfl : call ∈ s.obsolete ∨ call = s.session.calls := by
      simpa [Subscriber.asks] using hcall
    · exact (h.lt_calls call hcall).trans (by simp [Subscriber.asks, Subscriber.advances, hcalls])
    · simp [Subscriber.asks, Subscriber.advances, hcalls]
  · have hbefore : s.session.Awaits (s.obsolete ++ [s.session.calls]) :=
      h.awaits.congr h.numbered fun n hn => by simp [hn.ne]
    refine hbefore.step h.numbered hdistinct hsub ?_ hsession
    rintro call - answer rfl
    obtain ⟨retval, heq⟩ | ⟨token, heq⟩ := hask <;> cases heq

theorem advances {b : Mqtt.Action} (h : s.Recorded) (hdistinct : s.session.DistinctPending b)
    (hafter : s.AnswerAfterStore b) (hsession : s.session.step b = some w) :
    (s.advances w).Recorded := by
  have hkeeps : s.session.calls ≤ w.calls ∧
      ∀ r ∈ w.accepted, r ∈ s.session.accepted ∨ s.session.calls ≤ r.call := by
    obtain ⟨op, retval, outcome, rfl, rfl⟩ | ⟨op, token, rfl, rfl⟩ | ⟨op, token, rfl, rfl⟩ |
      ⟨r, _, rfl, rfl⟩ | ⟨r, _, answer, rfl, rfl⟩ | ⟨token, rfl, rfl⟩ :=
      Session.step_cases hsession
    case inr.inl | inr.inr.inl =>
      refine ⟨Nat.le_succ _, fun r hr => ?_⟩
      obtain hr | rfl := by simpa [Session.accepts, Session.stores] using hr
      · exact .inl hr
      · exact .inr le_rfl
    case inl => exact ⟨Nat.le_succ _, fun r hr => .inl hr⟩
    all_goals exact ⟨le_rfl, fun r hr => .inl hr⟩
  have hsub : ∀ r ∈ w.accepted, r.call ∈ s.obsolete → ∃ topic qos, r.op = .subscribe topic qos := by
    intro r hr hcall
    obtain hold | hnew := hkeeps.2 r hr
    · exact h.subscribes r hold hcall
    · exact absurd (h.lt_calls _ hcall) (by omega)
  exact ⟨h.numbered.step hsession,
    fun call hcall => (h.lt_calls call hcall).trans_le hkeeps.1, hsub,
    h.awaits.step h.numbered hdistinct hsub (fun _ hcall _ hb => hafter.ne hcall hb) hsession⟩

theorem step (h : s.Recorded) (hlibrary : s.LibraryRun a) (hstep : s.step a = some s') :
    s'.Recorded := by
  cases step_cases hstep with
  | registers => exact ⟨h.numbered, h.lt_calls, h.subscribes, h.awaits⟩
  | asks hon hsession hask => exact h.asks (hlibrary _ hon).1 hsession hask
  | advances hsession =>
      obtain ⟨hdistinct, hafter⟩ := hlibrary _ rfl
      exact h.advances hdistinct hafter hsession

end Recorded

theorem recorded_of_reachable (hallowed : ∀ s a, allowed s a → s.LibraryRun a)
    (h : Reachable step allowed (init bufferSize) s) : s.Recorded :=
  h.invariant Recorded (.init bufferSize) fun s a _ hrec ha hstep => hrec.step (hallowed s a ha) hstep

/-! ### What an answer calls -/

/-- Whatever the answer to a request is, the registered handler gets what a success would owe it. -/
theorem calls_of_answer (hrec : s.Recorded) (hr : r ∈ s.session.inFlight)
    (hstored : r.call ∈ s.obsolete → r ∉ s.session.storing) (answer : Answer) :
    (s.session.imp.answer r.op.kind r.token answer).2.flatMap s.calls = s.owes r (.success 0) := by
  have haccepted := hrec.numbered.inFlight_accepted r hr
  rw [Imp.answer_snd, show (r.op.kind, r.token) = r.key from rfl]
  by_cases hobsolete : r.call ∈ s.obsolete
  · obtain ⟨topic, qos, hop⟩ := hrec.subscribes r haccepted hobsolete
    rw [hrec.awaits.found r hr hobsolete (hstored hobsolete)]
    cases answer <;>
      simp [Request.context, Op.context, hop, Context.complete, SubscribeContext.onSubscribe, calls,
        hobsolete, onSubscribe, owes, Answer.result]
  · have howes : s.owes r (.success 0) = [] := by
      unfold owes
      split
      · rw [if_neg hobsolete]
      · rfl
    rw [howes]
    cases hcontext : s.session.imp.contextAt r.key with
    | none => rfl
    | some c =>
      -- the context may be a leftover, but not that of an obsolete subscription
      obtain ⟨r', ⟨_, hflight⟩, hkey, rfl⟩ := hrec.awaits.within _ _ hcontext
      have hother : r'.call ∉ s.obsolete := by
        intro hcall
        obtain rfl := hrec.awaits.distinct r' (.inl (hflight hcall)) r (.inl hr) trivial
          (congrArg Prod.snd hkey)
        exact hobsolete hcall
      have hcompletion : s.calls (r'.completion answer) = [] := by
        unfold calls
        split
        · rename_i call topic qos result heq
          have hcall : call = r'.call := by
            rw [← Request.hndl_completion r' answer, heq]
            rfl
          rw [if_neg (hcall ▸ hother)]
        · rfl
      simpa [Request.completion] using hcompletion

theorem owes_eq_nil (answer : Answer) (h : r.call ∈ s.obsolete → s.registered = none) :
    s.owes r answer = [] := by
  unfold owes
  split
  · split_ifs with hobsolete
    · simp [h hobsolete]
    · rfl
  · rfl

/-- A step answers a request, or leaves the reports alone. -/
theorem step_reports (hstep : s.step a = some s') :
    (∃ r ∈ s.session.inFlight, ∃ answer, a = .session (.answer r.call answer) ∧
        s'.reports = s.reports ++
          (s.session.imp.answer r.op.kind r.token answer).2.flatMap s.calls ∧
        s'.owed = s.owed ++ s.owes r answer) ∨
      (∀ call answer, a ≠ .session (.answer call answer)) ∧
        s'.reports = s.reports ∧ s'.owed = s.owed := by
  cases step_cases hstep with
  | registers registered hon =>
      refine .inr ⟨?_, rfl, rfl⟩
      rintro call answer rfl
      cases hon
  | @asks a b w topic qos hon hsession hask =>
      obtain ⟨hlog, hanswered, _⟩ := quiet_of_asks hsession hask
      refine .inr ⟨?_, advances_of_quiet hlog hanswered⟩
      rintro call answer rfl
      obtain rfl := Option.some.inj hon
      obtain ⟨retval, h⟩ | ⟨token, h⟩ := hask <;> cases h
  | @advances b w hsession =>
      obtain ⟨op, retval, outcome, rfl, rfl⟩ | ⟨op, token, rfl, rfl⟩ | ⟨op, token, rfl, rfl⟩ |
        ⟨r, _, rfl, rfl⟩ | ⟨r, hr, answer, rfl, rfl⟩ | ⟨token, rfl, rfl⟩ :=
        Session.step_cases hsession
      case inr.inr.inr.inr.inl =>
        exact .inl ⟨r, hr, answer, rfl, by simp [advances, Session.answers],
          by simp [advances, Session.answers]⟩
      case inr.inr.inr.inr.inr =>
        have hquiet : (s.session.imp.delivered token).flatMap s.calls = [] := by
          rw [Imp.delivered_eq]
          cases s.session.imp.publishContextMap[token]? <;>
            simp [PublishContext.onDelivery, calls]
        exact .inr ⟨by simp, by simp [advances, hquiet], by simp [advances]⟩
      all_goals
        exact .inr ⟨by simp, advances_of_quiet rfl rfl⟩

/-- An answer tells the handler what a success would, whatever it is. -/
theorem step_answer_reports (h : Reachable step allowed (init bufferSize) s)
    (hallowed : ∀ s a, allowed s a → s.LibraryRun a) (hlibrary : s.LibraryRun a)
    (hstep : s.step a = some s') :
    (∃ r ∈ s.session.inFlight, ∃ answer, a = .session (.answer r.call answer) ∧
        s'.reports = s.reports ++ s.owes r (.success 0) ∧
        s'.owed = s.owed ++ s.owes r answer) ∨
      (∀ call answer, a ≠ .session (.answer call answer)) ∧
        s'.reports = s.reports ∧ s'.owed = s.owed := by
  obtain ⟨r, hr, answer, rfl, hreports, howed⟩ | hquiet := step_reports hstep
  · have hstored : r.call ∈ s.obsolete → r ∉ s.session.storing :=
      fun hcall hmem => (hlibrary _ rfl).2 hcall r hmem rfl
    rw [calls_of_answer (recorded_of_reachable hallowed h) hr hstored] at hreports
    exact .inl ⟨r, hr, answer, rfl, hreports, howed⟩
  · exact .inr hquiet

theorem reports_eq_owed
    (h : Reachable step (fun s a => s.LibraryRun a ∧ s.NoFailure a) (init bufferSize) s) :
    s.reports = s.owed := by
  refine h.invariant_of_reachable (fun s => s.reports = s.owed) rfl ?_
  intro s a s' hreach heq hallowed hstep
  obtain ⟨r, _, answer, rfl, hreports, howed⟩ | ⟨_, hreports, howed⟩ :=
    step_answer_reports hreach (fun _ _ hallowed => hallowed.1) hallowed.1 hstep
  · rw [hreports, howed, heq]
    cases answer with
    | success qos => rfl
    | failure =>
        have hnone := hallowed.2 r.call rfl
        rw [owes_eq_nil _ hnone, owes_eq_nil _ hnone]
  · rw [hreports, howed, heq]

/-- **The obsolete subscribe.** In a run in which pending requests have distinct tokens and no answer
to an obsolete subscription overtakes the critical section of its call, the registered handler is
called exactly as it is owed, once for each answered obsolete subscription and with the outcome the
library has reported, if and only if no obsolete subscription fails while a handler is registered. -/
theorem obsolete_subscribe_truthful_iff (s : Subscriber) :
    Keeps step LibraryRun (fun s => s.reports = s.owed) (init bufferSize) s ↔
      Reachable step (fun s a => s.LibraryRun a ∧ s.NoFailure a) (init bufferSize) s := by
  refine keeps_iff (fun s h => reports_eq_owed h) fun s a s' h hlibrary hstep hfails heq => ?_
  simp only [NoFailure, not_forall] at hfails
  obtain ⟨call, rfl, hobsolete, hregistered⟩ := hfails
  obtain ⟨r, hr, answer, ha, hreports, howed⟩ | ⟨hnot, _⟩ :=
    step_answer_reports h (fun _ _ hallowed => hallowed.1) hlibrary hstep
  · obtain ⟨rfl, rfl⟩ := Mqtt.Action.answer.inj (Action.session.inj ha)
    have hrec := recorded_of_reachable (fun _ _ hallowed => hallowed.1) h
    obtain ⟨topic, qos, hop⟩ :=
      hrec.subscribes r (hrec.numbered.inFlight_accepted r hr) hobsolete
    obtain ⟨hndl, hhndl⟩ := Option.ne_none_iff_exists'.mp hregistered
    rw [hreports, howed, reports_eq_owed h] at heq
    have hsame := List.append_cancel_left heq
    simp [owes, hop, hobsolete, hhndl, Answer.result] at hsame
  · exact absurd rfl (hnot call .failure)

/-- The broker refuses an obsolete subscription, and the handler is told that it succeeded. -/
theorem obsolete_subscribe_hides_failure :
    ¬ ∀ s, Reachable step LibraryRun (init 1024) s → s.reports = s.owed :=
  Runs.not_forall_reachable
    [.registerOnSubscribeHandler 7, .subscribe (bytes "a") 1 (.accepted 1),
      .session (.answer 0 .failure)]
    ⟨_, Option.get_mem (by decide +kernel), by decide +kernel⟩

end Subscriber

end Shapeware.Mqtt
