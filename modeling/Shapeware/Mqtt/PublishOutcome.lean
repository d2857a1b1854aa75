import Shapeware.Mqtt.Ledger

/-!
# The outcome of a publish

`onSend` tells the application what became of its message. A message of QoS 1 or 2 has a token of
its own, so its outcome is reported once, unless its context was dropped because the map was over
its limit; then it is never reported. All messages of QoS 0 have token 0, so the same is known of
them when no two are in flight together.
-/

namespace Shapeware.Mqtt.Session

/-- The library gives a message of QoS 0 the token 0, and other messages tokens that are not zero
and not in flight. -/
def TokenFor (w : Session) (qos : Int) : LibraryResult → Prop
  | .refused _ => True
  | .accepted token => if qos = 0 then token = 0 else token ≠ 0 ∧ w.FreshToken token

/-- Runs of publish calls, whose contexts are stored as the library accepts the messages. -/
def PublishRun (w : Session) : Action → Prop
  | .call (.publish _ qos _) retval => (qos = 0 ∨ qos = 1 ∨ qos = 2) ∧ w.TokenFor qos retval
  | .call .. | .accept .. => False
  | _ => True

/-- The completion handler of the call has been called exactly once, with its topic and QoS. -/
def SentOnce (w : Session) (call : Nat) (topic : StdString) (qos : Int) : Prop :=
  ∃ result, w.completions call = [.onSend call topic qos result]

instance (w : Session) (qos : Int) : ∀ retval, Decidable (w.TokenFor qos retval)
  | .refused _ => .isTrue trivial
  | .accepted token =>
    inferInstanceAs (Decidable (if qos = 0 then token = 0 else token ≠ 0 ∧ w.FreshToken token))

instance (w : Session) : ∀ a, Decidable (w.PublishRun a)
  | .call (.publish _ qos _) retval =>
    inferInstanceAs (Decidable ((qos = 0 ∨ qos = 1 ∨ qos = 2) ∧ w.TokenFor qos retval))
  | .call (.subscribe ..) _ | .call (.unsubscribe _) _ | .accept .. => .isFalse id
  | .store _ | .answer _ _ | .delivered _ => .isTrue trivial

variable {w : Session} {bufferSize : Int}

theorem PublishRun.atomicStore {a : Action} (h : w.PublishRun a) : AtomicStore a := by
  cases a <;> first | exact h | trivial

/-- Tokens other than 0 are not shared. -/
theorem PublishRun.distinctOn {a : Action} (h : w.PublishRun a) :
    w.DistinctOn {token | token ≠ 0} a := by
  unfold DistinctOn
  split
  · rename_i op token
    cases op with
    | publish topic qos msg =>
        obtain ⟨_, htoken⟩ := h
        intro hne
        by_cases hqos : qos = 0
        · exact absurd (by simpa [TokenFor, hqos] using htoken) hne
        · exact (by simpa [TokenFor, hqos] using htoken : token ≠ 0 ∧ w.FreshToken token).2
    | _ => exact absurd h id
  · exact absurd h id
  · trivial

/-- Accepted messages of QoS 1 and 2 have tokens other than 0. -/
theorem token_ne_zero (h : Runs.Reachable step PublishRun (init bufferSize) w) :
    ∀ r ∈ w.accepted, ∀ topic qos msg, r.op = .publish topic qos msg → qos ≠ 0 → r.token ≠ 0 := by
  refine h.invariant (fun w => ∀ r ∈ w.accepted, ∀ topic qos msg,
    r.op = .publish topic qos msg → qos ≠ 0 → r.token ≠ 0) (by simp [init]) ?_
  intro w a w' hold hallowed hstep
  obtain ⟨op, retval, outcome, rfl, rfl⟩ | ⟨op, token, rfl, rfl⟩ | ⟨op, token, rfl, rfl⟩ |
    ⟨r, hr, rfl, rfl⟩ | ⟨r, hr, answer, rfl, rfl⟩ | ⟨token, rfl, rfl⟩ := step_cases hstep
  · exact hold
  · intro r hr topic qos msg hop hqos
    obtain hr | rfl := by simpa [accepts, stores] using hr
    · exact hold r hr topic qos msg hop hqos
    · obtain rfl : op = .publish topic qos msg := hop
      have htoken : token ≠ 0 ∧ w.FreshToken token := by
        simpa [TokenFor, hqos] using hallowed.2
      exact htoken.1
  · exact absurd hallowed.atomicStore id
  · exact hold
  · exact hold
  · exact hold

/-- Once everything is answered, an accepted message under an unshared token has been reported
once, unless its context was dropped. -/
theorem Correlated.sentOnce {tokens : Set Int} (hcor : w.Correlated tokens) (hnum : w.Numbered)
    (hquiet : w.inFlight = []) {r : Request} (hr : r ∈ w.accepted) (htoken : r.token ∈ tokens)
    (hkept : r.call ∉ w.dropped) {topic : StdString} {qos : Int} {msg : List UInt8}
    (hop : r.op = .publish topic qos msg) : w.SentOnce r.call topic qos := by
  obtain hflight | ⟨answer, hanswer⟩ := hnum.accepted_cases r hr
  · rw [hquiet] at hflight
    cases hflight
  · refine ⟨answer.result, ?_⟩
    rw [hcor.completions_answered _ hanswer htoken hkept, Request.completion, Request.context, hop]
    rfl

/-- **The outcome of a publish.** Once the library has answered all it accepted: a publish whose
context was dropped at the limit has not been reported; any other of QoS 1 or 2 has been reported
once, whatever messages of QoS 0 were in flight; and one of QoS 0 too, in a run in which requests
in flight never share a token. -/
theorem publish_outcome (h : Runs.Reachable step PublishRun (init bufferSize) w)
    (hquiet : w.inFlight = []) :
    (∀ r ∈ w.accepted, r.call ∈ w.dropped → w.completions r.call = []) ∧
    (∀ r ∈ w.accepted, r.call ∉ w.dropped → ∀ topic qos msg, r.op = .publish topic qos msg →
      qos ≠ 0 → w.SentOnce r.call topic qos) ∧
    (Runs.Reachable step (fun w a => w.PublishRun a ∧ w.DistinctTokens a) (init bufferSize) w →
      ∀ r ∈ w.accepted, r.call ∉ w.dropped → ∀ topic qos msg, r.op = .publish topic qos msg →
        w.SentOnce r.call topic qos) := by
  obtain ⟨hnum, hcor⟩ := ledger_of_atomic {token | token ≠ 0}
    (fun _ _ hallowed => hallowed.atomicStore) (fun _ _ hallowed => hallowed.distinctOn) h
  refine ⟨fun r _ hdropped => hcor.completions_dropped hdropped, ?_, ?_⟩
  · intro r hr hkept topic qos msg hop hqos
    exact hcor.sentOnce hnum hquiet hr (token_ne_zero h r hr topic qos msg hop hqos) hkept hop
  · intro hapart r hr hkept topic qos msg hop
    obtain ⟨_, hcorAll⟩ := ledger_of_atomic Set.univ
      (fun _ _ hallowed => hallowed.1.atomicStore)
      (fun _ _ hallowed => hallowed.2.distinctOn) hapart
    exact hcorAll.sentOnce hnum hquiet hr trivial hkept hop

/-- A message of each QoS, one the library refuses, and a limit of one context, which drops the
message of QoS 2. -/
theorem publish_outcome_mixed : ∃ w, Runs.Reachable step PublishRun (init 1) w ∧
    w.inFlight = [] ∧ w.dropped = [3] ∧ w.completions 3 = [] ∧ w.SentOnce 0 (bytes "a") 1 ∧
      w.SentOnce 1 (bytes "b") 0 := by
  let allowed : Session → Action → Prop := fun w a => w.PublishRun a ∧ w.DistinctTokens a
  let actions : List Action :=
    [.call (.publish (bytes "a") 1 [1]) (.accepted 5),
      .call (.publish (bytes "b") 0 [2]) (.accepted 0),
      .call (.publish (bytes "c") 0 [3]) (.refused (-3)),
      .call (.publish (bytes "d") 2 [4]) (.accepted 6), .answer 3 (.success 2),
      .answer 1 (.success 0), .delivered 5, .answer 0 .failure]
  let w := (Runs.run step allowed (init 1) actions).get (by decide +kernel)
  have hapart : Runs.Reachable step allowed (init 1) w :=
    Runs.reachable_of_run (Option.some_get _).symm
  have hw : Runs.Reachable step PublishRun (init 1) w := hapart.mono fun _ _ hallowed => hallowed.1
  have hquiet : w.inFlight = [] := by decide +kernel
  have hfirst : ⟨0, 5, .publish (bytes "a") 1 [1]⟩ ∈ w.accepted := by decide +kernel
  have hsecond : ⟨1, 0, .publish (bytes "b") 0 [2]⟩ ∈ w.accepted := by decide +kernel
  have hfourth : ⟨3, 6, .publish (bytes "d") 2 [4]⟩ ∈ w.accepted := by decide +kernel
  obtain ⟨hlost, hsent, hsentAll⟩ := publish_outcome hw hquiet
  exact ⟨w, hw, hquiet, by decide +kernel, hlost _ hfourth (by decide +kernel),
    hsent _ hfirst (by decide +kernel) _ _ _ rfl (by decide),
    hsentAll hapart _ hsecond (by decide +kernel) _ _ _ rfl⟩

/-- At the limit the outcome of an accepted message is never reported. -/
theorem publish_lost_at_limit :
    ¬ ∀ bufferSize w, Runs.Reachable step PublishRun (init bufferSize) w → w.inFlight = [] →
      ∀ n topic qos msg, (n, Op.publish topic qos msg) ∈ w.returned → w.SentOnce n topic qos := by
  intro hall
  specialize hall 0
  revert hall
  refine Runs.not_forall_reachable
    [.call (.publish (bytes "a") 1 [1]) (.accepted 1),
      .call (.publish (bytes "a") 1 [2]) (.accepted 2), .answer 0 (.success 1),
      .answer 1 (.success 1)]
    ⟨_, Option.get_mem (by decide +kernel), fun h => ?_⟩
  obtain ⟨result, hsent⟩ := h (by decide +kernel) 1 (bytes "a") 1 [2] (by decide +kernel)
  exact List.cons_ne_nil _ _ (hsent.symm.trans (by decide +kernel))

end Shapeware.Mqtt.Session
