import Shapeware.AwsFleetProv.Deadlock
import Shapeware.AwsFleetProv.Lifetime
import Shapeware.AwsFleetProv.Messages
import Shapeware.AwsFleetProv.Reports

/-!
# Payloads and the waiting worker

The operations of a handler succeed or throw as the payload has it. A handler that throws sets no
promise, and `makeProvisioning` waits without a timeout.
-/

namespace Shapeware.AwsFleetProv

open Effects History

def Topic.request : Topic → Request
  | .keysAccepted | .keysRejected => .keys
  | .registerAccepted | .registerRejected => .register

namespace Imp

variable {s s' : Imp} {a : Action} {p : Promise}

theorem setValue_promises {value : Bool} (h : s.promises p ≠ none) (q : Promise) :
    (s.setValue q value).promises p ≠ none := by
  simp only [setValue]
  split_ifs with hq
  · have hne : p ≠ q := fun heq => h (heq ▸ hq)
    rwa [Function.update_of_ne hne]
  · exact h

theorem setValue_self {value : Bool} : (s.setValue p value).promises p ≠ none := by
  simp only [setValue]
  split_ifs with hp
  · simp
  · exact hp

theorem answers_promises {run : Nat} {q : Promise} {value : Bool} (h : s.promises p ≠ none) :
    (s.answers run q value).promises p ≠ none := by
  unfold answers
  split_ifs
  · exact setValue_promises h q
  · exact h

theorem handles_promises {source : Source} {op : MessageOp} (h : s.promises p ≠ none) :
    (s.handles source op).promises p ≠ none := by
  cases op with
  | setValue r accepted => exact answers_promises h
  | _ => exact h

/-- What a step leaves alone that is not about a message, within a run. -/
structure Passed (s s' : Imp) : Prop where
  run : s'.run = s.run
  promises : ∀ p, s.promises p ≠ none → s'.promises p ≠ none
  callback : s'.callback = s.callback ∨
    s.callback.inMessage = false ∧ s'.callback.inMessage = false

theorem Works.passed (hworks : s.Works s') : s.Passed s' := by
  cases hworks <;> exact ⟨rfl, fun _ => id, .inl rfl⟩

theorem onConnect_returns {run : Nat} {outcome : Outcome} (hcallback : s.callback = .onConnect run)
    (h : s.callsBack outcome = some s') : s'.promises = s.promises ∧ s'.callback = .idle := by
  simp only [callsBack, hcallback] at h
  split_ifs at h
  · cases h
    refine ⟨?_, rfl⟩
    unfold wakes
    split <;> rfl
  · cases h
    exact ⟨rfl, rfl⟩

theorem passed_of_step (hstep : s.step a = some s') (hmessage : ∀ t, a ≠ .message t)
    (hcallback : ∀ outcome, a ≠ .callback outcome) (hstart : a ≠ .startWorker) (hstop : a ≠ .stop) :
    s.Passed s' := by
  cases step_cases hstep with
  | works hworks => exact hworks.passed
  | startsWorker => exact absurd rfl hstart
  | stops => exact absurd rfl hstop
  | callsOnMessage => exact absurd rfl (hmessage _)
  | setsConnected | onConnectReturns | onMessageReturns | handles | onMessageThrows =>
      exact absurd rfl (hcallback _)
  | callsOnConnect hcall => exact ⟨rfl, fun _ => id, .inr ⟨by rw [hcall.2]; rfl, rfl⟩⟩
  | answersSubscribe | answersSend =>
      refine ⟨answers_run, fun p hp => ?_, .inl answers_callback⟩
      exact answers_promises hp
  | _ => exact ⟨rfl, fun _ => id, .inl rfl⟩

end Imp

/-- The component with the payloads of its messages. -/
structure Receiving where
  imp : Imp
  /-- The outcomes of the operations that are left of the message in progress. -/
  results : List Outcome
  /-- The messages for which a handler was called. -/
  calls : List Message
  /-- The requests of this run with a message on one of their two topics. -/
  responded : Request → Bool

/-- What happens to the component: a message comes in, the library thread goes on in its handler, or
anything else. -/
inductive Receipt
  | message (m : Message)
  | callback
  | other (a : Action)

/-- The library begins with a message, or goes on in its handler. -/
def Action.ofMessage : Action → Bool
  | .message _ | .callback _ => true
  | _ => false

/-- A step that is not about a message. -/
def Receiving.after (s : Receiving) (a : Action) (imp : Imp) : Receiving :=
  match a with
  | .startWorker => { s with imp, responded := fun _ => false }
  | .stop => { s with imp, results := [], responded := fun _ => false }
  | _ => { s with imp }

namespace Rapidjson

variable (J : Rapidjson)

/-- What the operations of the handler come to. -/
def results (m : Message) : List Outcome :=
  let (result, d) := exec (J.handle m) ⟨[], [], fun _ => none, fun _ => none, []⟩
  match result with
  | .ok _ => List.replicate d.performed.length .ok
  | .error _ => List.replicate d.performed.length .ok ++ [.threw]

def step (s : Receiving) : Receipt → Option Receiving
  | .message m => (s.imp.step (.message m.topic)).map fun imp =>
    { imp, results := J.results m, calls := m :: s.calls
      responded := if s.imp.handlers m.topic = some s.imp.run then
        Function.update s.responded m.topic.request true else s.responded }
  | .callback => (s.imp.step (.callback (s.results.headD .ok))).map fun imp =>
    { s with imp, results := s.results.tail }
  | .other a => if a.ofMessage then none else (s.imp.step a).map (s.after a)

def Returns (m : Message) : Prop := ∀ d, ∃ a d', exec (J.handle m) d = (.ok a, d')

def Meets : Receipt → Prop
  | .message m => J.WellFormed m
  | _ => True

section Results

variable {J} {m : Message}

theorem returns_iff : J.Returns m ↔ J.WellFormed m := by
  constructor
  · intro h
    exact ((performs_handle m).returns_iff ⟨[], [], fun _ => none, fun _ => none, []⟩).mp (h _)
  · exact fun h d => ((performs_handle m).returns_iff d).mpr h

theorem results_of_wellFormed (h : J.WellFormed m) :
    J.results m = List.replicate (onMessage m.topic).length .ok := by
  obtain ⟨d, hcall, hperformed⟩ :=
    (performs_handle m).returns h ⟨[], [], fun _ => none, fun _ => none, []⟩
  rw [results, hcall]
  simp [hperformed]

end Results

end Rapidjson

namespace Receiving

section After

variable {J : Rapidjson} {s t : Receiving} {a : Action} {imp : Imp}

@[simp] theorem after_imp : (s.after a imp).imp = imp := by
  cases a <;> rfl

@[simp] theorem after_calls : (s.after a imp).calls = s.calls := by
  cases a <;> rfl

theorem step_other (hstep : J.step s (.other a) = some t) :
    a.ofMessage = false ∧ ∃ imp, s.imp.step a = some imp ∧ t = s.after a imp := by
  rw [Rapidjson.step] at hstep
  split_ifs at hstep with hmessage
  obtain ⟨imp, himp, rfl⟩ := Option.map_eq_some_iff.mp hstep
  exact ⟨eq_false_of_ne_true hmessage, imp, himp, rfl⟩

end After

def init : Receiving := ⟨.init, [], [], fun _ => false⟩

/-- `worker` has ended with a call of `m_onProvisioned` or `m_onError`. -/
def HasReported (s : Receiving) : Prop := s.imp.worker.hasEnded = true ∧ s.imp.reported ≠ []

/-- No exception leaves a handler, and nobody waits for a response that has come. -/
structure Survives (J : Rapidjson) (s : Receiving) : Prop where
  returns : ∀ m ∈ s.calls, J.Returns m
  responds : ∀ r, s.responded r = true → s.imp.callback.inMessage = false →
    s.imp.promises (.responded r) ≠ none
  proceeds : ∀ r rest, s.imp.worker = .provisioning (.get (.responded r) :: rest) →
    s.responded r = true → s.imp.callback.inOnConnect = false → s.imp.registered = true →
      Runs.Leads J.step (fun _ a => J.Meets a) s HasReported

variable {J : Rapidjson} {s t : Receiving} {a : Receipt}

/-! ### Well-formed messages -/

theorem setValue_mem_onMessage (t : Topic) :
    ∃ accepted, .setValue t.request accepted ∈ onMessage t := by
  cases t <;> decide

/-- What is left of the message in progress will be done, and will set the promise. -/
structure Fulfilled (s : Receiving) : Prop where
  results : ∀ source rest, s.imp.callback = .onMessage source rest →
    s.results = List.replicate rest.length .ok
  idle : s.imp.callback.inMessage = false → s.results = []
  responded : ∀ r, s.responded r = true → s.imp.promises (.responded r) ≠ none ∨
    ∃ source rest accepted, s.imp.callback = .onMessage source rest ∧ source.run = s.imp.run ∧
      .setValue r accepted ∈ rest

namespace Fulfilled

theorem of_idle (hcallback : s.imp.callback = .idle) (hresults : s.results = [])
    (hresponded : ∀ r, s.responded r = false) : s.Fulfilled where
  results := fun source rest hmessage => by
    rw [hcallback] at hmessage
    cases hmessage
  idle := fun _ => hresults
  responded := fun r hr => by
    rw [hresponded] at hr
    cases hr

theorem init : init.Fulfilled := .of_idle rfl rfl fun _ => rfl

/-- A promise that is not set yet waits for the message in progress. -/
theorem set_of_idle (h : s.Fulfilled) (hidle : s.imp.callback.inMessage = false) {r : Request}
    (hr : s.responded r = true) : s.imp.promises (.responded r) ≠ none := by
  obtain hset | ⟨source, rest, accepted, hcallback, -⟩ := h.responded r hr
  · exact hset
  · rw [hcallback] at hidle
    cases hidle

theorem passes {imp : Imp} (h : s.Fulfilled) (hpassed : s.imp.Passed imp) :
    Fulfilled { s with imp } where
  results := fun source rest hcallback => by
    obtain hsame | ⟨-, hnot⟩ := hpassed.callback
    · exact h.results source rest (hsame ▸ hcallback)
    · rw [hcallback] at hnot
      cases hnot
  idle := fun hidle => by
    obtain hsame | ⟨hbefore, -⟩ := hpassed.callback
    · exact h.idle (hsame ▸ hidle)
    · exact h.idle hbefore
  responded := fun r hr => by
    obtain hset | ⟨source, rest, accepted, hcallback, hrun, hmem⟩ := h.responded r hr
    · exact .inl (hpassed.promises _ hset)
    · obtain hsame | ⟨hbefore, -⟩ := hpassed.callback
      · exact .inr ⟨source, rest, accepted, hsame.trans hcallback, hrun.trans hpassed.run.symm, hmem⟩
      · rw [hcallback] at hbefore
        cases hbefore

theorem message {m : Message} (h : s.Fulfilled) (hm : J.WellFormed m)
    (hstep : J.step s (.message m) = some t) : t.Fulfilled := by
  obtain ⟨imp, himp, rfl⟩ := Option.map_eq_some_iff.mp hstep
  rw [Imp.step] at himp
  split_ifs at himp with hcall
  obtain ⟨run, hhandler, rfl⟩ := Option.map_eq_some_iff.mp himp
  refine ⟨fun source rest hcallback => ?_, fun hidle => (by cases hidle), fun r hr => ?_⟩
  · cases hcallback
    exact Rapidjson.results_of_wellFormed hm
  · have hbefore (hr : s.responded r = true) : s.imp.promises (.responded r) ≠ none :=
      h.set_of_idle (by rw [hcall.2]; rfl) hr
    by_cases hown : s.imp.handlers m.topic = some s.imp.run ∧ r = m.topic.request
    · obtain ⟨hown, rfl⟩ := hown
      obtain ⟨accepted, hmem⟩ := setValue_mem_onMessage m.topic
      refine .inr ⟨_, _, accepted, rfl, ?_, hmem⟩
      exact Option.some.inj (hhandler.symm.trans hown)
    · refine .inl (hbefore ?_)
      simp only at hr
      split_ifs at hr with howned
      · rwa [Function.update_of_ne fun heq => hown ⟨howned, heq⟩] at hr
      · exact hr

theorem callback (h : s.Fulfilled) (hstep : J.step s .callback = some t) : t.Fulfilled := by
  obtain ⟨imp, himp, rfl⟩ := Option.map_eq_some_iff.mp hstep
  change s.imp.callsBack _ = some imp at himp
  cases hcallback : s.imp.callback with
  | idle => simp [Imp.callsBack, hcallback] at himp
  | onConnect run =>
      obtain ⟨hpromises, hidle⟩ := Imp.onConnect_returns hcallback himp
      have hbefore : s.imp.callback.inMessage = false := by
        rw [hcallback]
        rfl
      refine ⟨fun source rest hcallback' => ?_, fun _ => by simp [h.idle hbefore],
        fun r hr => .inl ?_⟩
      · rw [hidle] at hcallback'
        cases hcallback'
      · rw [hpromises]
        exact h.set_of_idle hbefore hr
  | onMessage source rest =>
      have hresults := h.results source rest hcallback
      cases rest with
      | nil =>
          simp only [Imp.callsBack, hcallback, Option.some.injEq] at himp
          subst himp
          refine ⟨fun _ _ hcallback => (by cases hcallback), fun _ => by simp [hresults], fun r hr => .inl ?_⟩
          obtain hset | ⟨source', rest, accepted, hcallback', -, hmem⟩ := h.responded r hr
          · exact hset
          · rw [hcallback] at hcallback'
            cases hcallback'
            cases hmem
      | cons op rest =>
          rw [List.length_cons, List.replicate_succ] at hresults
          simp only [Imp.callsBack, hcallback, hresults, List.headD_cons, Option.some.injEq] at himp
          subst himp
          refine ⟨fun source' rest' hcallback' => ?_, fun hidle => (by cases hidle), fun r hr => ?_⟩
          · cases hcallback'
            simp [hresults]
          · obtain hset | ⟨source', rest', accepted, hcallback', hrun, hmem⟩ := h.responded r hr
            · exact .inl (Imp.handles_promises hset)
            · rw [hcallback] at hcallback'
              cases hcallback'
              obtain rfl | hrest := List.mem_cons.mp hmem
              · refine .inl ?_
                simp only [Imp.handles, Imp.answers, hrun, ↓reduceIte]
                exact Imp.setValue_self
              · exact .inr ⟨source, rest, accepted, rfl, hrun.trans Imp.handles_run.symm, hrest⟩

theorem step (h : s.Fulfilled) (hmeets : J.Meets a) (hstep : J.step s a = some t) :
    t.Fulfilled := by
  cases a with
  | message m => exact h.message hmeets hstep
  | callback => exact h.callback hstep
  | other a =>
      obtain ⟨hmessage, imp, himp, rfl⟩ := step_other hstep
      cases a with
      | message | callback => cases hmessage
      | startWorker =>
          rw [Imp.step] at himp
          split_ifs at himp
          cases himp
          exact ⟨h.results, h.idle, fun _ hr => (by cases hr)⟩
      | stop =>
          cases himp
          exact .of_idle rfl rfl fun _ => rfl
      | _ => exact h.passes (Imp.passed_of_step himp (by simp) (by simp) (by simp) (by simp))

end Fulfilled

end Receiving

/-! ### The way to the end -/

def Request.accepted : Request → Topic
  | .keys => .keysAccepted
  | .register => .registerAccepted

/-- The operation after which the library can set the promise. -/
def Promise.opener : Promise → Op
  | .subscribed t => .storeHandler t
  | .sent r => .publish r
  | .responded r => .storeHandler r.accepted

section Suffixes

variable {p : Promise} {op : Op} {rest : List Op}

/-- After a wait, its promise has no part in `makeProvisioning`. -/
theorem get_once (h : .get p :: rest <:+ makeProvisioning) :
    .get p ∉ rest ∧ p.opener ∉ rest := by
  refine of_suffix (P := fun op rest => op = .get p → .get p ∉ rest ∧ p.opener ∉ rest) ?_ h rfl
  cases p with
  | subscribed t => cases t <;> decide
  | sent r | responded r => cases r <;> decide

/-- After the wait for a response, what is waited for is still to be asked for. -/
theorem opener_of_responded {r : Request} (h : .get (.responded r) :: rest <:+ makeProvisioning) :
    .get p ∈ rest → p.opener ∈ rest := by
  refine of_suffix (P := fun op rest => op = .get (.responded r) → .get p ∈ rest → p.opener ∈ rest)
    ?_ h rfl
  cases p with
  | subscribed t => cases t <;> cases r <;> decide
  | sent r' | responded r' => cases r' <;> cases r <;> decide

theorem keys_of_responded {r : Request} (h : .get (.responded r) :: rest <:+ makeProvisioning) :
    .get (.responded .keys) ∉ rest :=
  of_suffix (P := fun op rest => op = .get (.responded r) → .get (.responded .keys) ∉ rest)
    (by cases r <;> decide) h rfl

/-- Handlers are erased when nothing is waited for. -/
theorem not_get_of_erases {t : Topic} (h : .eraseHandler t :: rest <:+ makeProvisioning) :
    .get p ∉ rest := by
  refine of_suffix (P := fun op rest => op = .eraseHandler t → .get p ∉ rest) ?_ h rfl
  cases p with
  | subscribed t' => cases t' <;> cases t <;> decide
  | sent r | responded r => cases r <;> cases t <;> decide

end Suffixes

namespace Imp

variable {s s' : Imp} {p : Promise} {op : Op} {rest : List Op}

def Answerable (s : Imp) : Promise → Prop
  | .responded r => s.handlers r.accepted = some s.run
  | p => s.asked p = some s.run

/-- What is still waited for has come, or can come, or is still to be asked for. -/
def Fed (s : Imp) (rest : List Op) : Prop :=
  ∀ p, .get p ∈ rest → s.promises p ≠ none ∨ s.Answerable p ∨ p.opener ∈ rest

theorem Fed.next (h : s.Fed (op :: rest)) (hpromises : s'.promises = s.promises)
    (hkept : ∀ p, .get p ∈ rest → s.Answerable p → s'.Answerable p)
    (hopened : ∀ p, p.opener = op → s'.Answerable p) : s'.Fed rest := by
  intro p hp
  rw [hpromises]
  obtain hset | hanswerable | hopener := h p (List.mem_cons_of_mem _ hp)
  · exact .inl hset
  · exact .inr (.inl (hkept p hp hanswerable))
  · obtain heq | hrest := List.mem_cons.mp hopener
    · exact .inr (.inl (hopened p heq))
    · exact .inr (.inr hrest)

/-- `worker` is in `makeProvisioning` with its client, and the application is there. -/
structure Onward (s : Imp) (rest : List Op) : Prop where
  suffix : rest <:+ makeProvisioning
  worker : s.worker = .provisioning rest
  idle : s.callback = .idle
  client : s.client = some s.run
  registered : s.registered = true
  keys : .get (.responded .keys) ∉ rest
  fed : s.Fed rest

theorem update_keeps {κ : Type} [DecidableEq κ] {f : κ → Option Nat} {k k' : κ} {run : Nat}
    (h : f k' = some run) : Function.update f k (some run) k' = some run := by
  by_cases hk : k' = k
  · subst hk
    exact Function.update_self ..
  · exact (Function.update_of_ne hk ..).trans h

/-- An operation that neither waits nor throws. -/
theorem Onward.performs (h : s.Onward (op :: rest)) (hop : s.Ready op) :
    ∃ s', s.works .ok = some s' ∧ s'.Onward rest := by
  have hsuffix := (List.suffix_cons op rest).trans h.suffix
  have hmessage : s.callback.inMessage = false := by
    rw [h.idle]
    rfl
  have hworks {s' : Imp} (hperforms : s.performs .ok rest op = some s') (hfed : s'.Fed rest)
      (hworker : s'.worker = .provisioning rest) (hcallback : s'.callback = s.callback)
      (hclient : s'.client = s.client) (hrun : s'.run = s.run)
      (hregistered : s'.registered = s.registered) : ∃ s', s.works .ok = some s' ∧ s'.Onward rest := by
    refine ⟨s', by simp [works, h.worker, hperforms], hsuffix, hworker, hcallback.trans h.idle, ?_,
      hregistered.trans h.registered, fun hget => h.keys (List.mem_cons_of_mem _ hget), hfed⟩
    rw [hclient, hrun]
    exact h.client
  cases op with
  | storeHandler t =>
      refine hworks (if_neg (by simp [hmessage])) ?_ rfl rfl rfl rfl rfl
      refine h.fed.next rfl (fun p _ hp => ?_) fun p hp => ?_
      · cases p with
        | subscribed t' | responded r => exact update_keeps hp
        | sent r => exact hp
      · cases p with
        | sent r => cases hp
        | subscribed t' | responded r =>
            cases hp
            exact Function.update_self ..
  | publish r =>
      refine hworks rfl ?_ rfl rfl rfl rfl rfl
      refine h.fed.next rfl (fun p _ hp => ?_) fun p hp => ?_
      · cases p with
        | sent r' => exact update_keeps hp
        | subscribed t | responded r' => exact hp
      · cases p with
        | sent r' =>
            cases hp
            exact Function.update_self ..
        | subscribed t | responded r' => cases hp
  | eraseHandler t =>
      refine hworks (if_neg (by simp [hmessage])) ?_ rfl rfl rfl rfl rfl
      refine h.fed.next rfl (fun p hp => absurd hp (not_get_of_erases h.suffix)) fun p hp => ?_
      cases p <;> cases hp
  | get p =>
      refine hworks (if_neg hop) (h.fed.next rfl (fun _ _ => id) fun p hp => ?_) rfl rfl rfl rfl rfl
      cases p <;> cases hp
  | check p =>
      refine hworks (congrArg some (if_pos hop)) (h.fed.next rfl (fun _ _ => id) fun p hp => ?_)
        rfl rfl rfl rfl rfl
      cases p <;> cases hp
  | subscribe t | unsubscribe t | readToken | readCertificateId =>
      refine hworks rfl (h.fed.next rfl (fun _ _ => id) fun p hp => ?_) rfl rfl rfl rfl rfl
      cases p <;> cases hp

/-- The library answers what `worker` waits for. -/
theorem Onward.answers (h : s.Onward (.get p :: rest)) (hp : s.asked p = some s.run) :
    ∃ a s', s.step a = some s' ∧ a.ofMessage = false ∧ a ≠ .startWorker ∧ a ≠ .stop ∧
      s'.Onward (.get p :: rest) ∧ s'.promises p ≠ none := by
  have hcall : s.CanCall := ⟨by simp [h.client], h.idle⟩
  have hanswered (s₁ : Imp) (hasked : s₁.asked = Function.update s.asked p none)
      (hworker : s₁.worker = s.worker) (hsame : s₁.run = s.run ∧ s₁.callback = s.callback ∧
        s₁.client = s.client ∧ s₁.registered = s.registered ∧ s₁.handlers = s.handlers)
      (hpromises : s₁.promises = s.promises) :
      (s₁.answers s.run p true).Onward (.get p :: rest) ∧
        (s₁.answers s.run p true).promises p ≠ none := by
    obtain ⟨hrun, hcallback, hclient, hregistered, hhandlers⟩ := hsame
    rw [Imp.answers, if_pos hrun.symm]
    have hset : (s₁.setValue p true).promises p ≠ none := setValue_self
    refine ⟨⟨h.suffix, hworker.trans h.worker, hcallback.trans h.idle, ?_,
      hregistered.trans h.registered, h.keys, fun p' hp' => ?_⟩, hset⟩
    · exact hclient.trans (h.client.trans (congrArg some hrun.symm))
    · by_cases hne : p' = p
      · exact .inl (hne ▸ hset)
      · obtain hbefore | hanswerable | hopener := h.fed p' hp'
        · exact .inl (setValue_promises (hpromises ▸ hbefore) p)
        · refine .inr (.inl ?_)
          cases p' with
          | responded r =>
              exact (congrFun hhandlers _).trans (hanswerable.trans (congrArg some hrun.symm))
          | subscribed t | sent r =>
              have hkept : s₁.asked _ = _ := (congrFun hasked _).trans (Function.update_of_ne hne ..)
              exact hkept.trans (hanswerable.trans (congrArg some hrun.symm))
        · exact .inr (.inr hopener)
  cases p with
  | responded r => cases hp
  | subscribed t =>
      refine ⟨.subscribed t true, _, ?_, rfl, by simp, by simp,
        hanswered { s with subscribing := Function.update s.subscribing t none }
          (asked_of_subscribing rfl rfl) rfl ⟨rfl, rfl, rfl, rfl, rfl⟩ rfl⟩
      have hrun : s.subscribing t = some s.run := hp
      simp [step, hcall, hrun]
  | sent r =>
      refine ⟨.sent r true, _, ?_, rfl, by simp, by simp,
        hanswered { s with sending := Function.update s.sending r none }
          (asked_of_sending rfl rfl) rfl ⟨rfl, rfl, rfl, rfl, rfl⟩ rfl⟩
      have hrun : s.sending r = some s.run := hp
      simp [step, hcall, hrun]

/-- What a step leaves alone that only sets promises. -/
structure Steady (s s' : Imp) : Prop where
  run : s'.run = s.run
  worker : s'.worker = s.worker
  client : s'.client = s.client
  registered : s'.registered = s.registered
  asked : s'.asked = s.asked
  handlers : s'.handlers = s.handlers
  promises : ∀ p, s.promises p ≠ none → s'.promises p ≠ none

theorem Steady.trans {s'' : Imp} (h : s.Steady s') (h' : s'.Steady s'') : s.Steady s'' where
  run := h'.run.trans h.run
  worker := h'.worker.trans h.worker
  client := h'.client.trans h.client
  registered := h'.registered.trans h.registered
  asked := h'.asked.trans h.asked
  handlers := h'.handlers.trans h.handlers
  promises := fun p hp => h'.promises p (h.promises p hp)

theorem steady_handles {source : Source} {op : MessageOp} {callback : Callback} :
    s.Steady { s.handles source op with callback } := by
  cases op with
  | setValue r accepted =>
      unfold Imp.handles Imp.answers
      split_ifs
      · exact ⟨rfl, rfl, rfl, rfl, rfl, rfl, fun p hp => setValue_promises hp _⟩
      · exact ⟨rfl, rfl, rfl, rfl, rfl, rfl, fun _ => id⟩
  | _ => exact ⟨rfl, rfl, rfl, rfl, rfl, rfl, fun _ => id⟩

theorem Onward.steady (h : s.Onward rest) (hsteady : s.Steady s') (hidle : s'.callback = .idle) :
    s'.Onward rest where
  suffix := h.suffix
  worker := hsteady.worker.trans h.worker
  idle := hidle
  client := by
    rw [hsteady.client, hsteady.run]
    exact h.client
  registered := hsteady.registered.trans h.registered
  keys := h.keys
  fed := fun p hp => by
    obtain hset | hanswerable | hopener := h.fed p hp
    · exact .inl (hsteady.promises p hset)
    · refine .inr (.inl ?_)
      cases p <;> simpa [Answerable, hsteady.asked, hsteady.handlers, hsteady.run] using hanswerable
    · exact .inr (.inr hopener)

end Imp

namespace Receiving

variable {J : Rapidjson} {s t : Receiving} {imp : Imp} {P : Receiving → Prop} {rest : List Op}

theorem leads_other {a : Action} (hmessage : a.ofMessage = false) (hstart : a ≠ .startWorker)
    (hstop : a ≠ .stop) (hstep : s.imp.step a = some imp)
    (h : Runs.Leads J.step (fun _ a => J.Meets a) { s with imp } P) :
    Runs.Leads J.step (fun _ a => J.Meets a) s P := by
  have hafter : s.after a imp = { s with imp } := by
    cases a with
    | startWorker => exact absurd rfl hstart
    | stop => exact absurd rfl hstop
    | _ => rfl
  refine .head (a := .other a) trivial ?_ h
  simp [Rapidjson.step, hmessage, hstep, hafter]

theorem leads_worker (outcome : Outcome) (hworks : s.imp.works outcome = some imp)
    (h : Runs.Leads J.step (fun _ a => J.Meets a) { s with imp } P) :
    Runs.Leads J.step (fun _ a => J.Meets a) s P :=
  leads_other (a := .worker outcome) rfl nofun nofun hworks h

theorem mem_reported {e : Event} (hmem : e ∈ s.imp.trace) (he : e.isReport = true) :
    s.imp.reported ≠ [] :=
  List.ne_nil_of_mem (List.mem_filter.mpr ⟨hmem, he⟩)

theorem leads_from_end (hpc : s.imp.worker = .provisioning [])
    (hregistered : s.imp.registered = true) :
    Runs.Leads J.step (fun _ a => J.Meets a) s HasReported := by
  obtain ⟨honProvisioned, -⟩ : s.imp.onProvisioned = true ∧ s.imp.onError = true := by
    simpa [Imp.registered] using hregistered
  have hends : s.imp.works .ok = some (s.imp.goto (.report true)) := by simp [Imp.works, hpc]
  have hreports : (s.imp.goto (.report true)).works .ok = some
      { ((s.imp.goto (.report true)).log .onProvisioned).goto (.inHandler true) with
        isProvisioned := true
        provisionedRuns := s.imp.run :: s.imp.provisionedRuns } := by
    simp [Imp.works, Imp.reports, Imp.goto, Imp.log, honProvisioned]
  refine leads_worker .ok hends <| leads_worker .ok hreports <| leads_worker .ok rfl <|
    leads_worker .ok rfl <| leads_worker .ok rfl <| Runs.leads_of_mem ⟨rfl, ?_⟩
  exact mem_reported (List.mem_append_right _ (List.mem_singleton_self _)) rfl

theorem leads_from_caught (hpc : s.imp.worker = .caught) (hregistered : s.imp.registered = true) :
    Runs.Leads J.step (fun _ a => J.Meets a) s HasReported := by
  obtain ⟨-, honError⟩ : s.imp.onProvisioned = true ∧ s.imp.onError = true := by
    simpa [Imp.registered] using hregistered
  have hcatches : s.imp.works .ok = some ((s.imp.log .onError).goto .inOnError) := by
    simp [Imp.works, hpc, honError]
  refine leads_worker .ok hcatches <| leads_worker .ok rfl <| Runs.leads_of_mem ⟨rfl, ?_⟩
  exact mem_reported (List.mem_append_right _ (List.mem_singleton_self _)) rfl

theorem leads_from_cancelling {topics : List Topic} (hpc : s.imp.worker = .cancelling topics)
    (hidle : s.imp.callback = .idle) (hregistered : s.imp.registered = true) :
    Runs.Leads J.step (fun _ a => J.Meets a) s HasReported := by
  induction topics generalizing s with
  | nil =>
      have hthrows : s.imp.works .ok = some (s.imp.throws .caught) := by simp [Imp.works, hpc]
      exact leads_worker .ok hthrows (leads_from_caught rfl hregistered)
  | cons t topics ih =>
      have hunsubscribes : s.imp.works .ok = some (s.imp.goto (.cancelErases t topics)) := by
        simp [Imp.works, hpc, Imp.orThrows]
      have herases : (s.imp.goto (.cancelErases t topics)).works .ok = some
          { (s.imp.goto (.cancelErases t topics)).goto (.cancelling topics) with
            handlers := Function.update s.imp.handlers t none } := by
        simp [Imp.works, Imp.erases, Imp.goto, hidle, Callback.inMessage]
      exact leads_worker .ok hunsubscribes (leads_worker .ok herases (ih rfl hidle hregistered))

/-- A message is handled to its end. -/
theorem leads_from_message {source : Source} {ops : List MessageOp}
    (hcallback : s.imp.callback = .onMessage source ops) (hfulfilled : s.Fulfilled)
    (h : ∀ t : Receiving, s.imp.Steady t.imp → t.imp.callback = .idle → t.responded = s.responded →
      t.Fulfilled → Runs.Leads J.step (fun _ a => J.Meets a) t P) :
    Runs.Leads J.step (fun _ a => J.Meets a) s P := by
  have hresults := hfulfilled.results source ops hcallback
  induction ops generalizing s with
  | nil =>
      have hstep : J.step s .callback = some
          { s with imp := { s.imp with callback := .idle }, results := s.results.tail } := by
        simp only [Rapidjson.step, Imp.step, Imp.callsBack, hcallback, Option.map_some]
      refine .head (a := .callback) trivial hstep (h _ ?_ rfl rfl (hfulfilled.callback hstep))
      exact ⟨rfl, rfl, rfl, rfl, rfl, rfl, fun _ => id⟩
  | cons op ops ih =>
      have hhead : s.results.headD .ok = .ok := by
        rw [hresults]
        rfl
      have hstep : J.step s .callback = some
          { s with
            imp := { s.imp.handles source op with callback := .onMessage source ops }
            results := s.results.tail } := by
        simp only [Rapidjson.step, Imp.step, Imp.callsBack, hcallback, hhead, Option.map_some]
      refine .head (a := .callback) trivial hstep (ih rfl (hfulfilled.callback hstep) ?_ ?_)
      · intro t hsteady hidle hresponded hfulfilled'
        exact h t (Imp.steady_handles.trans hsteady) hidle hresponded hfulfilled'
      · exact (hfulfilled.callback hstep).results source ops rfl

/-- The library sets the promise that `worker` waits for. -/
theorem leads_to_answer {p : Promise} (hparse : ∃ contents, (J.parseStream contents).isSome = true)
    (honward : s.imp.Onward (.get p :: rest)) (hfulfilled : s.Fulfilled)
    (hanswerable : s.imp.Answerable p)
    (h : ∀ t : Receiving, t.imp.Onward (.get p :: rest) → t.Fulfilled → t.imp.promises p ≠ none →
      Runs.Leads J.step (fun _ a => J.Meets a) t P) :
    Runs.Leads J.step (fun _ a => J.Meets a) s P := by
  have hasks (hasked : s.imp.asked p = some s.imp.run) :
      Runs.Leads J.step (fun _ a => J.Meets a) s P := by
    obtain ⟨a, imp, hstep, hmessage, hstart, hstop, honward', hset⟩ := honward.answers hasked
    refine leads_other hmessage hstart hstop hstep (h _ honward' (hfulfilled.passes ?_) hset)
    refine Imp.passed_of_step hstep ?_ ?_ hstart hstop <;>
    · rintro _ rfl
      cases hmessage
  cases p with
  | subscribed t => exact hasks hanswerable
  | sent r => exact hasks hanswerable
  | responded r =>
      cases r with
      | keys => exact absurd (List.mem_cons_self ..) honward.keys
      | register =>
          obtain ⟨contents, hcontents⟩ := hparse
          let m : Message := ⟨.registerAccepted, contents, ⟨fun _ => true, id, true⟩⟩
          have hm : J.WellFormed m := ⟨rfl, rfl, hcontents⟩
          have hcall : s.imp.CanCall := ⟨by simp [honward.client], honward.idle⟩
          have hhandler : s.imp.handlers .registerAccepted = some s.imp.run := hanswerable
          have hstep : J.step s (.message m) = some
              { imp :=
                  { s.imp with
                    callback := .onMessage ⟨s.imp.run, s.imp.messages⟩ (onMessage .registerAccepted)
                    messages := s.imp.messages + 1 }
                results := J.results m
                calls := m :: s.calls
                responded := Function.update s.responded .register true } := by
            simp [Rapidjson.step, Imp.step, hcall, m, hhandler, Topic.request]
          refine .head (a := .message m) hm hstep ?_
          refine leads_from_message rfl (hfulfilled.message hm hstep)
            fun t hsteady hidle hresponded hfulfilled' => ?_
          refine h t (honward.steady (.trans ?_ hsteady) hidle) hfulfilled' ?_
          · exact ⟨rfl, rfl, rfl, rfl, rfl, rfl, fun _ => id⟩
          · refine hfulfilled'.set_of_idle (by rw [hidle]; rfl) ?_
            rw [hresponded]
            exact Function.update_self Request.register true s.responded

/-- `worker` goes on to the end, or to an exception. -/
theorem leads_from_onward (hparse : ∃ contents, (J.parseStream contents).isSome = true)
    (honward : s.imp.Onward rest) (hfulfilled : s.Fulfilled) :
    Runs.Leads J.step (fun _ a => J.Meets a) s HasReported := by
  induction rest generalizing s with
  | nil => exact leads_from_end honward.worker honward.registered
  | cons op rest ih =>
      have hready {t : Receiving} (honward : t.imp.Onward (op :: rest)) (hfulfilled : t.Fulfilled)
          (hop : t.imp.Ready op) : Runs.Leads J.step (fun _ a => J.Meets a) t HasReported := by
        obtain ⟨imp, hworks, hnext⟩ := honward.performs hop
        exact leads_worker .ok hworks (ih hnext (hfulfilled.passes (Imp.work_cases hworks).passed))
      by_cases hop : s.imp.Ready op
      · exact hready honward hfulfilled hop
      · cases op with
        | get p =>
            obtain hset | hanswerable | hopener := honward.fed p (List.mem_cons_self ..)
            · exact absurd hset hop
            · exact leads_to_answer hparse honward hfulfilled hanswerable fun t => hready
            · obtain heq | hrest := List.mem_cons.mp hopener
              · cases p <;> cases heq
              · exact absurd hrest (get_once honward.suffix).2
        | check p =>
            have hthrows : s.imp.works .ok = some (s.imp.throws (.cancelling cancelProvisioning)) := by
              simp only [Imp.works, honward.worker, Imp.performs]
              exact congrArg some (if_neg hop)
            exact leads_worker .ok hthrows (leads_from_cancelling rfl honward.idle honward.registered)
        | _ => exact absurd trivial hop

/-- The response that `worker` waits for has come. -/
theorem leads_from_response {r : Request}
    (hparse : ∃ contents, (J.parseStream contents).isSome = true)
    (hpc : s.imp.worker = .provisioning (.get (.responded r) :: rest))
    (hsuffix : .get (.responded r) :: rest <:+ makeProvisioning)
    (hclient : s.imp.client = some s.imp.run) (hregistered : s.imp.registered = true)
    (hfulfilled : s.Fulfilled) (hidle : s.imp.callback = .idle) (hr : s.responded r = true) :
    Runs.Leads J.step (fun _ a => J.Meets a) s HasReported := by
  have hset : s.imp.promises (.responded r) ≠ none := hfulfilled.set_of_idle (by rw [hidle]; rfl) hr
  have hworks : s.imp.works .ok = some (s.imp.goto (.provisioning rest)) := by
    simp only [Imp.works, hpc, Imp.performs]
    exact if_neg hset
  have honward : (s.imp.goto (.provisioning rest)).Onward rest :=
    { suffix := (List.suffix_cons _ _).trans hsuffix
      worker := rfl
      idle := hidle
      client := hclient
      registered := hregistered
      keys := keys_of_responded hsuffix
      fed := fun p hp => .inr (.inr (opener_of_responded hsuffix hp)) }
  refine leads_worker .ok hworks (leads_from_onward hparse honward ?_)
  exact hfulfilled.passes (Imp.work_cases hworks).passed

/-! ### Every message -/

theorem imp_reachable (h : Runs.Reachable J.step (fun _ a => True ∧ J.Meets a) init s) :
    Runs.Reachable Imp.step (fun _ _ => True) .init s.imp := by
  induction h with
  | refl => exact .refl
  | tail a _ _ hstep ih =>
      cases a with
      | message m | callback =>
          obtain ⟨imp, himp, rfl⟩ := Option.map_eq_some_iff.mp hstep
          exact .tail _ ih trivial himp
      | other a =>
          obtain ⟨-, imp, himp, rfl⟩ := step_other hstep
          exact .tail a ih trivial (himp.trans (congrArg some after_imp.symm))

theorem fulfilled_of_reachable (h : Runs.Reachable J.step (fun _ a => True ∧ J.Meets a) init s) :
    s.Fulfilled :=
  h.invariant Fulfilled .init fun _ _ _ hs hmeets hstep => hs.step hmeets.2 hstep

theorem survives_of_reachable (hparse : ∃ contents, (J.parseStream contents).isSome = true)
    (h : Runs.Reachable J.step (fun _ a => True ∧ J.Meets a) init s) : s.Survives J where
  returns := by
    refine h.invariant (fun s => ∀ m ∈ s.calls, J.Returns m) nofun fun s a t hs hmeets hstep => ?_
    cases a with
    | message m =>
        obtain ⟨imp, himp, rfl⟩ := Option.map_eq_some_iff.mp hstep
        intro m' hm'
        obtain rfl | hbefore := List.mem_cons.mp hm'
        · exact Rapidjson.returns_iff.mpr hmeets.2
        · exact hs m' hbefore
    | callback =>
        obtain ⟨imp, himp, rfl⟩ := Option.map_eq_some_iff.mp hstep
        exact hs
    | other a =>
        obtain ⟨-, imp, -, rfl⟩ := step_other hstep
        rw [after_calls]
        exact hs
  responds := fun r hr hidle => (fulfilled_of_reachable h).set_of_idle hidle hr
  proceeds := by
    intro r rest hpc hr hconnect hregistered
    have hfulfilled := fulfilled_of_reachable h
    have howned := Imp.owned_of_reachable (imp_reachable h)
    have hsubscribed := howned.subscribed
    rw [hpc] at hsubscribed
    have hclient := howned.client (by rw [hpc]; rfl)
    cases hcallback : s.imp.callback with
    | idle =>
        exact leads_from_response hparse hpc hsubscribed.1 hclient hregistered hfulfilled hcallback hr
    | onConnect run => simp [hcallback, Callback.inOnConnect] at hconnect
    | onMessage source ops =>
        refine leads_from_message hcallback hfulfilled fun t hsteady hidle hresponded hfulfilled' => ?_
        refine leads_from_response hparse (hsteady.worker.trans hpc) hsubscribed.1 ?_
          (hsteady.registered.trans hregistered) hfulfilled' hidle (hresponded ▸ hr)
        rw [hsteady.client, hsteady.run]
        exact hclient

end Receiving

/-! ### Two runs -/

def rejection : StdString :=
  bytes "\x7b\"statusCode\":403,\"errorCode\":\"AccessDenied\",\"errorMessage\":\"\"\x7d"

def rejectionDoc : Json :=
  .object [("statusCode", .number 403), ("errorCode", .string (bytes "AccessDenied")),
    ("errorMessage", .string [])]

/-- What rapidjson makes of the rejection. -/
def Rapidjson.ofRejection : Rapidjson :=
  let parse (msg : StdString) : Option Json := if msg = rejection then some rejectionDoc else none
  ⟨parse, parse⟩

namespace Receipt

/-- Not a message, or the rejection. -/
def isRejection : Receipt → Bool
  | .message m => m.topic = .keysRejected && m.payload = rejection
  | _ => true

def ofAction : Action → Receipt
  | .callback _ => .callback
  | a => .other a

/-- Up to the response to the request for the keys. -/
def asksForKeys : List Receipt :=
  (List.flatten [Action.connects, Action.works 4,
    [.subscribed .keysAccepted true, .subscribed .keysRejected true], Action.works 5,
    [.sent .keys true]]).map ofAction

theorem meets_of_isRejection {a : Receipt} (h : a.isRejection = true) :
    Rapidjson.ofRejection.Meets a := by
  cases a with
  | message m =>
      obtain ⟨topic, payload, disk⟩ := m
      obtain ⟨rfl, rfl⟩ : topic = .keysRejected ∧ payload = rejection := by
        simpa [isRejection] using h
      have hdocument : Rapidjson.ofRejection.document rejection = some rejectionDoc :=
        (if_neg (by decide +kernel)).trans (if_pos rfl)
      simp only [Rapidjson.Meets, Rapidjson.WellFormed, hdocument]
      exact ⟨rfl, ⟨403, rfl⟩, ⟨_, rfl⟩, ⟨_, rfl⟩⟩
  | _ => trivial

end Receipt

namespace Receiving

end Receiving

end Shapeware.AwsFleetProv
