import Shapeware.Library.Runs

/-!
# The promise of a disconnect

`disconnect` replaces the one promise of the service, asks the library to disconnect and waits for
five seconds. The library's answer sets whatever promise is there when it comes. An answer that comes
after its own call has timed out and the next one has started releases the wrong call, and the answer
to that one then sets a promise that has a value, which throws in the library's thread.
-/

namespace Shapeware.Mqtt

open Runs

/-- What can be noticed of the calls and the answers. -/
inductive DisconnectEvent
  /-- A call returns, released by the answer to a request or after its timeout. -/
  | returned (call : Nat) (releasedBy : Option Nat)
  /-- The answer to a request calls `set_value` on a promise that has a value. -/
  | threw (request : Nat)
deriving DecidableEq

/-- Where the application thread is in `disconnect`. -/
inductive DisconnectPc
  | idle
  /-- The promise is new, and the library is still to be asked. -/
  | asking
  | waiting
deriving DecidableEq

/-- The calls of `disconnect` are numbered, and a request has the number of its call. -/
structure Disconnecting where
  /-- Whether `m_client` has been created. -/
  client : Bool := true
  /-- The calls made so far; the promise is that of the last one. -/
  calls : Nat := 0
  pc : DisconnectPc := .idle
  /-- Whether `disconnect` has been called by `destroy`. -/
  destroying : Bool := false
  /-- The request whose answer has set the promise. -/
  promise : Option Nat := none
  /-- The requests the library has accepted and not answered yet. -/
  unanswered : List Nat := []
  log : List DisconnectEvent := []
deriving DecidableEq

namespace Disconnecting

inductive Action
  | create
  | disconnect
  | destroy
  /-- `MQTTAsync_disconnect`. -/
  | ask (accepted : Bool)
  /-- The wait is over, since the promise has a value or since the time is up. -/
  | wakeUp
  /-- `onDisconnect` or `onDisconnectFailure`: the two treat the promise alike. -/
  | answer (request : Nat)
deriving DecidableEq

def begins (s : Disconnecting) (destroying : Bool) : Disconnecting :=
  { s with calls := s.calls + 1, pc := .asking, destroying, promise := none }

/-- `set_value` of the promise. -/
def answers (s : Disconnecting) (request : Nat) : Disconnecting :=
  match s.promise with
  | none =>
    { s with unanswered := s.unanswered.filter (· ≠ request), promise := some request }
  | some _ =>
    { s with
      unanswered := s.unanswered.filter (· ≠ request), log := s.log ++ [.threw request] }

/-- The end of `disconnect`, and of `destroy`. -/
def returns (s : Disconnecting) : Disconnecting :=
  { s with
    client := s.client && !s.destroying
    pc := .idle
    destroying := false
    log := s.log ++ [.returned s.calls s.promise] }

def step (s : Disconnecting) : Action → Option Disconnecting
  | .create => if s.pc = .idle ∧ s.client = false then some { s with client := true } else none
  | .disconnect => if s.pc = .idle then some (s.begins false) else none
  | .destroy => if s.pc = .idle then some (s.begins true) else none
  | .ask accepted =>
    if s.pc = .asking then
      if accepted then
        -- The library refuses a client that was not created.
        if s.client then some { s with pc := .waiting, unanswered := s.unanswered ++ [s.calls] }
        else none
      else some { s with pc := .waiting }
    else none
  | .wakeUp => if s.pc = .waiting then some s.returns else none
  | .answer request => if request ∈ s.unanswered then some (s.answers request) else none

/-! ### The law and the condition -/

/-- No answer has thrown, and a call that was released was released by the answer to its own
request. -/
def Sound (s : Disconnecting) : Prop :=
  ∀ e ∈ s.log, ∀ call request, e ≠ .threw request ∧
    (e = .returned call (some request) → request = call)

/-- No new call. -/
def Action.goesOn : Action → Prop
  | .create | .disconnect | .destroy => False
  | _ => True

/-- Whenever the library answers the requests of the calls made so far, all is sound. -/
def SoundWhenever (s : Disconnecting) : Prop :=
  ∀ t, Reachable step (fun _ a => a.goesOn) s t → t.Sound

/-- No call starts while an accepted request is unanswered. -/
def StartsAnswered (s : Disconnecting) (a : Action) : Prop :=
  a = .disconnect ∨ a = .destroy → s.unanswered = []

instance (s : Disconnecting) (a : Action) : Decidable (s.StartsAnswered a) :=
  inferInstanceAs (Decidable (_ ∨ _ → _))

variable {s s' : Disconnecting} {a : Action}

/-- All that a step can do. -/
inductive Steps (s : Disconnecting) : Action → Disconnecting → Prop
  | creates (hpc : s.pc = .idle) : Steps s .create { s with client := true }
  | begins {a : Action} (destroying : Bool) (hcall : a = .disconnect ∨ a = .destroy)
      (hpc : s.pc = .idle) : Steps s a (s.begins destroying)
  | accepted (hpc : s.pc = .asking) :
      Steps s (.ask true) { s with pc := .waiting, unanswered := s.unanswered ++ [s.calls] }
  | refused (hpc : s.pc = .asking) : Steps s (.ask false) { s with pc := .waiting }
  | returns (hpc : s.pc = .waiting) : Steps s .wakeUp s.returns
  | answers {request : Nat} (hmem : request ∈ s.unanswered) :
      Steps s (.answer request) (s.answers request)

theorem step_cases (h : s.step a = some s') : s.Steps a s' := by
  cases a with
  | create =>
      rw [step] at h
      split_ifs at h with hpc
      obtain rfl := Option.some.inj h
      exact .creates hpc.1
  | disconnect =>
      rw [step] at h
      split_ifs at h with hpc
      obtain rfl := Option.some.inj h
      exact .begins false (.inl rfl) hpc
  | destroy =>
      rw [step] at h
      split_ifs at h with hpc
      obtain rfl := Option.some.inj h
      exact .begins true (.inr rfl) hpc
  | ask accepted =>
      rw [step] at h
      split_ifs at h with hpc haccepted hclient
      · obtain rfl := Option.some.inj h
        subst haccepted
        exact .accepted hpc
      · obtain rfl := Option.some.inj h
        obtain rfl : accepted = false := by simpa using haccepted
        exact .refused hpc
  | wakeUp =>
      rw [step] at h
      split_ifs at h with hpc
      obtain rfl := Option.some.inj h
      exact .returns hpc
  | answer request =>
      rw [step] at h
      split_ifs at h with hmem
      obtain rfl := Option.some.inj h
      exact .answers hmem

/-! ### Runs that meet the condition -/

/-- Only the request of the last call may be unanswered, and nobody else has set its promise. -/
structure InOrder (s : Disconnecting) : Prop where
  sound : s.Sound
  asking : s.pc = .asking → s.unanswered = [] ∧ s.promise = none
  unanswered : s.unanswered = [] ∨ s.unanswered = [s.calls] ∧ s.promise = none
  released : ∀ request, s.promise = some request → request = s.calls

theorem Sound.returns (h : s.Sound) (hreleased : ∀ request, s.promise = some request →
    request = s.calls) : s.returns.Sound := by
  intro e he call request
  obtain he | rfl := by simpa [Disconnecting.returns] using he
  · exact h e he call request
  · refine ⟨by simp, fun heq => ?_⟩
    obtain ⟨rfl, hpromise⟩ := DisconnectEvent.returned.inj heq
    exact hreleased request hpromise

theorem InOrder.step (h : s.InOrder) (hstart : s.StartsAnswered a) (hstep : s.step a = some s') :
    s'.InOrder := by
  obtain ⟨hsound, hasking, hunanswered, hreleased⟩ := h
  cases step_cases hstep with
  | creates => exact ⟨hsound, hasking, hunanswered, hreleased⟩
  | begins destroying hcall =>
      have hnone := hstart hcall
      exact ⟨hsound, fun _ => ⟨hnone, rfl⟩, .inl hnone, fun _ h => by cases h⟩
  | accepted hpc =>
      obtain ⟨hnone, hpromise⟩ := hasking hpc
      exact ⟨hsound, by simp, .inr ⟨by simp [hnone], hpromise⟩, hreleased⟩
  | refused => exact ⟨hsound, by simp, hunanswered, hreleased⟩
  | returns => exact ⟨hsound.returns hreleased, by simp [returns], hunanswered, hreleased⟩
  | @answers request hmem =>
      obtain hnone | ⟨hone, hpromise⟩ := hunanswered
      · simp [hnone] at hmem
      · obtain rfl : request = s.calls := by simpa [hone] using hmem
        have hempty : (s.answers s.calls).unanswered = [] := by simp [answers, hpromise, hone]
        have hset : (s.answers s.calls).promise = some s.calls := by simp [answers, hpromise]
        refine ⟨by simpa [Sound, answers, hpromise] using hsound, fun hpc => ?_, .inl hempty, ?_⟩
        · have hwas : s.pc = .asking := by simpa [answers, hpromise] using hpc
          simp [(hasking hwas).1] at hone
        · intro request h
          obtain rfl := Option.some.inj (hset.symm.trans h)
          simp [answers, hpromise]

theorem inOrder_of_reachable (h : Reachable step StartsAnswered {} s) : s.InOrder := by
  refine h.invariant InOrder ?_ fun _ _ _ hinv hstart hstep => hinv.step hstart hstep
  constructor <;> simp [Sound]

theorem soundWhenever_of_reachable (h : Reachable step StartsAnswered {} s) : s.SoundWhenever := by
  intro t hgoes
  have hstarts : Reachable step StartsAnswered s t := by
    refine hgoes.mono fun s a ha hcall => ?_
    obtain rfl | rfl := hcall <;> exact absurd ha id
  exact (inOrder_of_reachable (h.trans hstarts)).sound

/-- The answer to an earlier request comes first, and releases the new call. -/
theorem not_soundWhenever_begins {request : Nat} (hmem : request ∈ s.unanswered)
    (hearlier : request ≠ s.calls + 1) (destroying : Bool) :
    ¬ (s.begins destroying).SoundWhenever := by
  intro hall
  let t : Disconnecting :=
    { s.begins destroying with
      unanswered := s.unanswered.filter (· ≠ request), promise := some request }
  have hanswer : (s.begins destroying).step (.answer request) = some t := by
    rw [step, if_pos (by simpa [begins] using hmem)]
    rfl
  have hask : t.step (.ask false) = some { t with pc := .waiting } := rfl
  have hwake : { t with pc := .waiting }.step .wakeUp = some { t with pc := .waiting }.returns := rfl
  have hgoes : Reachable step (fun _ a => a.goesOn) (s.begins destroying)
      { t with pc := .waiting }.returns := by
    refine .tail .wakeUp (.tail (.ask false) (.tail (.answer request) .refl ?_ hanswer) ?_ hask) ?_
      hwake <;> trivial
  have hlaw := hall _ hgoes (.returned (s.calls + 1) (some request)) (by simp [returns, t, begins])
  exact hearlier ((hlaw (s.calls + 1) request).2 rfl)

/-- **The promise of a disconnect.** Along a run of calls, no answer throws and every released call
is released by the answer to its own request, whenever the answers come, if and only if no call
starts while an accepted request is unanswered. -/
theorem soundWhenever_iff (s : Disconnecting) :
    Keeps step (fun _ _ => True) SoundWhenever {} s ↔
      Reachable step (fun s a => True ∧ s.StartsAnswered a) {} s := by
  refine keeps_iff (fun s h => soundWhenever_of_reachable (h.mono fun _ _ h => h.2)) ?_
  intro s a s' h _ hstep hlate hall
  have hreach : Reachable step StartsAnswered {} s := h.mono fun _ _ h => h.2
  simp only [StartsAnswered, Classical.not_imp] at hlate
  obtain ⟨hcall, hsome⟩ := hlate
  obtain hnone | ⟨hone, _⟩ := (inOrder_of_reachable hreach).unanswered
  · exact hsome hnone
  · cases step_cases hstep with
    | begins destroying =>
        exact not_soundWhenever_begins (show s.calls ∈ s.unanswered by simp [hone]) (by omega) _ hall
    | _ => simp at hcall

/-- The first disconnect times out, its answer releases the second one, and the answer to that
throws. -/
theorem late_disconnect_answer_throws :
    ¬ ∀ s, Reachable step (fun _ _ => True) {} s → s.Sound := by
  refine Runs.not_forall_reachable
    [.disconnect, .ask true, .wakeUp, .disconnect, .ask true, .answer 1, .answer 2, .wakeUp]
    ⟨_, Option.get_mem (by decide +kernel), fun h => ?_⟩
  exact (h (.threw 2) (by decide +kernel) 0 2).1 rfl

end Disconnecting

end Shapeware.Mqtt
