import Shapeware.AwsFleetProv.Steps

/-!
# What a run of `worker` reports

`worker` reports a success when `makeProvisioning` has returned, and an error when the wait for the
connection is over or when it has caught an exception. `makeProvisioning` still calls `unsubscribe`
when the thing has already been registered, and the catch block leaves `m_isProvisioned` as it was.
-/

namespace Shapeware.AwsFleetProv

def Event.isReport : Event → Bool
  | .onProvisioned | .onError => true
  | _ => false

/-- An exception is on its way to the catch block of `worker`. -/
def WorkerPc.isFailing : WorkerPc → Bool
  | .cancelling _ | .cancelErases .. | .caught => true
  | _ => false

namespace Imp

/-- The calls of `m_onProvisioned` and `m_onError`. -/
def reported (s : Imp) : List Event := s.trace.filter Event.isReport

/-- The next step of `worker` throws, outside the application handlers and the catch blocks. -/
def throwsNow (s : Imp) (outcome : Outcome) : Bool :=
  match s.worker with
  | .testCertFile | .testKeyFile | .setConnected | .setCallbacks | .connect => outcome = .threw
  | .createClient => s.client ≠ none || outcome = .threw
  | .provisioning (.subscribe _ :: _) | .provisioning (.unsubscribe _ :: _) => outcome = .threw
  | .provisioning (.check p :: _) => s.promises p ≠ some true
  | _ => false

def registered (s : Imp) : Bool := s.onProvisioned && s.onError

/-- No application handler throws. -/
def handlersReturn (s : Imp) : Action → Bool
  | .worker .threw => !s.worker.inApplicationHandler
  | _ => true

section Steps

variable {s s' : Imp} {outcome : Outcome} {e : Event}

theorem reported_append (htrace : s'.trace = s.trace ++ [e]) (he : e.isReport = false) :
    s'.reported = s.reported := by
  simp [reported, htrace, he]

theorem reported_report (hreported : s.reported = []) (htrace : s'.trace = s.trace ++ [e])
    (he : e.isReport = true) : s'.reported = [e] := by
  rw [reported] at hreported
  simp [reported, htrace, hreported, he]

/-- A step that is neither a report nor the RegisterThing request. -/
structure Same (s s' : Imp) : Prop where
  reported : s'.reported = s.reported
  isProvisioned : s'.isProvisioned = s.isProvisioned
  published : .published .register ∈ s'.trace ↔ .published .register ∈ s.trace

theorem same_of_trace (htrace : s'.trace = s.trace ++ [e])
    (hprovisioned : s'.isProvisioned = s.isProvisioned) (he : e.isReport = false)
    (hpublished : e ≠ .published .register) : s.Same s' where
  reported := reported_append htrace he
  isProvisioned := hprovisioned
  published := by simp [htrace, hpublished.symm]

theorem Same.answers {run : Nat} {p : Promise} {value : Bool} (h : s.Same s') :
    s.Same (s'.answers run p value) := by
  unfold Imp.answers
  split_ifs
  · refine ⟨(reported_append rfl rfl).trans h.reported, h.isProvisioned, ?_⟩
    simp [setValue, h.published]
  · exact h

theorem same_handles {source : Source} {op : MessageOp} : s.Same (s.handles source op) := by
  cases op with
  | setValue r accepted => exact .answers ⟨rfl, rfl, Iff.rfl⟩
  | _ => exact ⟨rfl, rfl, Iff.rfl⟩

theorem orThrows_isFailing {pc' handler : WorkerPc} (hpc' : pc'.isFailing = false)
    (hhandler : handler.isFailing = true) :
    (s.orThrows outcome handler (s.goto pc')).worker.isFailing = decide (outcome = .threw) := by
  cases outcome with
  | ok => exact hpc'
  | threw => exact hhandler

theorem isFailing_of_performs {op : Op} {rest : List Op}
    (hworker : s.worker = .provisioning (op :: rest))
    (hperforms : s.performs outcome rest op = some s') :
    s'.worker.isFailing = s.throwsNow outcome := by
  cases op with
  | subscribe t | unsubscribe t =>
      cases hperforms
      simp only [throwsNow, hworker]
      exact orThrows_isFailing rfl rfl
  | check p =>
      cases hperforms
      by_cases hp : s.promises p = some true
      · simp [throwsNow, hworker, hp, goto, WorkerPc.isFailing]
      · simp [throwsNow, hworker, hp, throws, goto, WorkerPc.isFailing]
  | storeHandler t | get p | eraseHandler t =>
      simp only [performs, erases] at hperforms
      split_ifs at hperforms
      cases hperforms
      simp only [throwsNow, hworker]
      rfl
  | readToken | readCertificateId | publish r =>
      cases hperforms
      simp only [throwsNow, hworker]
      rfl

theorem isFailing_of_works (hworks : s.works outcome = some s')
    (hpc : s.worker.isFailing = false) (hhandler : s.worker.inApplicationHandler = false) :
    s'.worker.isFailing = s.throwsNow outcome := by
  cases hworker : s.worker with
  | provisioning rest =>
      cases rest with
      | nil =>
          simp only [works, hworker, Option.some.injEq] at hworks
          simp [← hworks, throwsNow, hworker, goto, WorkerPc.isFailing]
      | cons op rest =>
          simp only [works, hworker] at hworks
          exact isFailing_of_performs hworker hworks
  | createClient =>
      simp only [works, hworker, Option.some.injEq] at hworks
      subst hworks
      by_cases hclient : s.client = none
      · cases outcome <;> simp [throwsNow, hworker, hclient, orThrows, throws, goto, WorkerPc.isFailing]
      · simp [throwsNow, hworker, hclient, throws, goto, WorkerPc.isFailing]
  | testCertFile | testKeyFile | setConnected | setCallbacks | connect =>
      simp only [works, hworker, Option.some.injEq] at hworks
      subst hworks
      cases outcome <;> simp [throwsNow, hworker, orThrows, throws, goto, WorkerPc.isFailing]
  | wait w =>
      cases w <;> simp only [works, hworker, Option.some.injEq] at hworks <;> cases hworks <;>
        simp only [throwsNow, hworker, goto] <;> (try split_ifs) <;> rfl
  | report connected =>
      simp only [works, hworker, Option.some.injEq] at hworks
      subst hworks
      simp only [throwsNow, hworker, reports]
      split_ifs <;> rfl
  | lockWork | disconnect | destroy =>
      simp only [works, hworker, Option.some.injEq] at hworks
      subst hworks
      simp only [throwsNow, hworker]
      rfl
  | cancelling | cancelErases | caught => simp [hworker, WorkerPc.isFailing] at hpc
  | inHandler | inOnError => simp [hworker, WorkerPc.inApplicationHandler] at hhandler
  | returned | escaped => simp [works, hworker] at hworks

/-- A step that does not lead towards a catch block, or is already on its way to one. -/
theorem throwsNow_eq_false (hworks : s.works outcome = some s')
    (h : s'.worker.isFailing = false ∨ s.worker.isFailing = true ∨
      s.worker.inApplicationHandler = true) : s.throwsNow outcome = false := by
  have hwhen (hpc : s.worker.isFailing = true ∨ s.worker.inApplicationHandler = true) :
      s.throwsNow outcome = false := by
    cases hworker : s.worker <;>
      simp_all [throwsNow, WorkerPc.isFailing, WorkerPc.inApplicationHandler]
  obtain hgoes | hpc := h
  · by_cases hpc : s.worker.isFailing = true ∨ s.worker.inApplicationHandler = true
    · exact hwhen hpc
    · rw [not_or, Bool.not_eq_true, Bool.not_eq_true] at hpc
      exact (isFailing_of_works hworks hpc.1 hpc.2).symm.trans hgoes
  · exact hwhen hpc

theorem wakes_shows {w : TimedWait} : s.Same (s.wakes w) ∧
    ((s.wakes w).worker = s.worker ∨
      ∃ w₁ w₂, s.worker = .wait w₁ ∧ (s.wakes w).worker = .wait w₂) := by
  unfold wakes
  split
  case h_1 hpc => exact ⟨⟨rfl, rfl, Iff.rfl⟩, .inr ⟨_, _, hpc, rfl⟩⟩
  case h_2 => exact ⟨⟨rfl, rfl, Iff.rfl⟩, .inl rfl⟩

/-- What the library thread and the application do to `worker`. -/
theorem Steps.shows {a : Action} (hsteps : s.Steps a s') (hworker : ∀ outcome, a ≠ .worker outcome)
    (hstart : a ≠ .startWorker) :
    s'.worker.hasEnded = true ∨ s.Same s' ∧
      (s'.worker = s.worker ∨ ∃ w w', s.worker = .wait w ∧ s'.worker = .wait w') := by
  cases hsteps with
  | works => exact absurd rfl (hworker _)
  | startsWorker => exact absurd rfl hstart
  | stops => exact .inl rfl
  | activates hended => exact .inl hended
  | wakes hpc => exact .inr ⟨⟨rfl, rfl, Iff.rfl⟩, .inr ⟨_, _, hpc, rfl⟩⟩
  | answersSubscribe | answersSend =>
      exact .inr ⟨.answers ⟨rfl, rfl, Iff.rfl⟩, .inl answers_worker⟩
  | setsConnected =>
      obtain ⟨hsame, hpc⟩ := wakes_shows (s := s) (w := .relock)
      exact .inr ⟨⟨hsame.reported, hsame.isProvisioned, hsame.published⟩, hpc⟩
  | @handles source op =>
      have hsame : s.Same (s.handles source op) := same_handles
      exact .inr ⟨⟨hsame.reported, hsame.isProvisioned, hsame.published⟩, .inl handles_worker⟩
  | _ => exact .inr ⟨⟨rfl, rfl, Iff.rfl⟩, .inl rfl⟩

end Steps

end Imp

/-- The component, and what is remembered of the run of `worker`. -/
structure Watched where
  imp : Imp
  /-- An accepted answer to the RegisterThing request was received, before `m_onError` was called. -/
  accepted : Bool
  /-- The application handlers were registered, and have returned normally, in every step. -/
  handled : Bool
  /-- Every step met the condition. -/
  careful : Bool

namespace Watched

def init : Watched := ⟨.init, false, false, true⟩

/-- An accepted answer to the RegisterThing request is received. -/
def accepts (s : Watched) (a : Action) : Bool :=
  a = .message .registerAccepted && .published .register ∈ s.imp.trace && .onError ∉ s.imp.trace

/-- Nothing throws once an accepted answer was received, or as long as `m_isProvisioned` is still
set from before; and no accepted answer is received on the way to the catch block. -/
def meets (s : Watched) : Action → Bool
  | .worker outcome => !(s.imp.throwsNow outcome && (s.accepted || s.imp.isProvisioned))
  | a => !(s.accepts a && s.imp.worker.isFailing)

def step (s : Watched) (a : Action) : Option Watched :=
  (s.imp.step a).map fun imp =>
    if a = .startWorker then ⟨imp, false, imp.registered, true⟩
    else
      ⟨imp, s.accepted || s.accepts a, s.handled && imp.registered && s.imp.handlersReturn a,
        s.careful && s.meets a⟩

/-- What a run that has ended should have reported. -/
def Sound (s : Watched) : Prop :=
  (s.imp.reported = [.onProvisioned] ∧ s.imp.isProvisioned = true) ∨
    (s.imp.reported = [.onError] ∧ s.accepted = false ∧ s.imp.isProvisioned = false)

instance (s : Watched) : Decidable s.Sound := inferInstanceAs (Decidable (_ ∨ _))

/-- The call of `m_onError` from the catch block is sound exactly if every step met the condition. -/
def Excused (s : Watched) : Prop :=
  s.careful = true ↔ s.accepted = false ∧ s.imp.isProvisioned = false

def Along (s : Watched) : WorkerPc → Prop
  | .provisioning _ | .report true => s.imp.reported = [] ∧ s.careful = true
  | .cancelling _ | .cancelErases .. | .caught => s.imp.reported = [] ∧ s.Excused
  | .inOnError => s.imp.reported = [.onError] ∧ s.Excused
  | .inHandler _ | .disconnect | .destroy => s.Sound ∧ s.careful = true
  | .returned | .escaped => True
  | _ =>
    s.imp.reported = [] ∧ s.careful = true ∧ s.accepted = false ∧ .published .register ∉ s.imp.trace

variable {s t : Watched} {imp : Imp} {a : Action} {outcome : Outcome} {pc pc' : WorkerPc}

/-! ### Steps -/

@[simp] theorem accepts_worker : s.accepts (.worker outcome) = false := by
  simp [accepts]

theorem accepts_cases (h : s.accepts a = true) :
    .published .register ∈ s.imp.trace ∧ .onError ∉ s.imp.reported := by
  obtain ⟨⟨-, hpublished⟩, hreported⟩ := by simpa [accepts] using h
  exact ⟨hpublished, fun hmem => hreported (List.mem_of_mem_filter hmem)⟩

namespace Along

theorem congr (h : s.Along pc) (hsame : s.imp.Same t.imp) (haccepted : t.accepted = s.accepted)
    (hcareful : t.careful = s.careful) : t.Along pc := by
  cases pc with
  | returned | escaped => trivial
  | report connected =>
      cases connected <;>
        simpa only [Along, hsame.reported, hsame.published, haccepted, hcareful] using h
  | _ =>
      simpa only [Along, Sound, Excused, hsame.reported, hsame.isProvisioned, hsame.published,
        haccepted, hcareful] using h

theorem accepts (h : s.Along pc) (haccepts : s.accepts a = true) (hsame : s.imp.Same t.imp)
    (haccepted : t.accepted = true) (hcareful : t.careful = (s.careful && !pc.isFailing)) :
    t.Along pc := by
  obtain ⟨hpublished, hreported⟩ := accepts_cases haccepts
  have hfails (hpc : pc.isFailing = true) (hreported : s.imp.reported = []) :
      t.imp.reported = [] ∧ t.Excused := by
    refine ⟨hsame.reported.trans hreported, ?_⟩
    simp [Excused, haccepted, hcareful, hpc]
  have hgoesOn (hpc : pc.isFailing = false) (h : s.careful = true) : t.careful = true := by
    simp [hcareful, hpc, h]
  cases pc with
  | provisioning rest => exact ⟨hsame.reported.trans h.1, hgoesOn rfl h.2⟩
  | cancelling rest | cancelErases t rest | caught => exact hfails rfl h.1
  | report connected =>
      cases connected with
      | false => exact absurd hpublished h.2.2.2
      | true => exact ⟨hsame.reported.trans h.1, hgoesOn rfl h.2⟩
  | inOnError => simp [h.1] at hreported
  | inHandler connected | disconnect | destroy =>
      refine ⟨.inl ?_, hgoesOn rfl h.2⟩
      obtain ⟨hsuccess, hprovisioned⟩ | ⟨herror, -⟩ := h.1
      · exact ⟨hsame.reported.trans hsuccess, hsame.isProvisioned.trans hprovisioned⟩
      · simp [herror] at hreported
  | returned | escaped => trivial
  | _ => exact absurd hpublished h.2.2.2

theorem observes (h : s.Along pc) (hsame : s.imp.Same t.imp)
    (haccepted : t.accepted = (s.accepted || s.accepts a))
    (hcareful : t.careful = (s.careful && !(s.accepts a && pc.isFailing))) : t.Along pc := by
  cases haccepts : s.accepts a with
  | false => exact h.congr hsame (by simp [haccepted, haccepts]) (by simp [hcareful, haccepts])
  | true => exact h.accepts haccepts hsame (by simp [haccepted, haccepts]) (by simp [hcareful, haccepts])

theorem goes (h : s.Along pc) (hgoes : s.imp.Goes pc pc') : s.Along pc' := by
  cases hgoes with
  | isConnected => exact ⟨h.1, h.2.1⟩
  | ignores | onErrorReturns => trivial
  | _ => exact h

/-- `worker` throws before it has reported anything. -/
theorem fails (hreported : s.imp.reported = []) (hsame : s.imp.Same t.imp)
    (haccepted : t.accepted = s.accepted)
    (hcareful : s.careful = true)
    (hmeets : t.careful = (s.careful && !(s.accepted || s.imp.isProvisioned))) :
    t.imp.reported = [] ∧ t.Excused := by
  refine ⟨hsame.reported.trans hreported, ?_⟩
  simp [Excused, hmeets, hcareful, haccepted, hsame.isProvisioned]

end Along

/-- A step of `worker`, while the application keeps its handlers. -/
theorem Along.works (h : s.Along s.imp.worker)
    (hregistered : s.imp.onProvisioned = true ∧ s.imp.onError = true)
    (hreturn : s.imp.handlersReturn (.worker outcome) = true) (hworks : s.imp.works outcome = some t.imp)
    (haccepted : t.accepted = s.accepted)
    (hcareful : t.careful = (s.careful && s.meets (.worker outcome))) : t.Along t.imp.worker := by
  obtain ⟨imp, accepted, handled, careful⟩ := t
  have hsame (hgoes : imp.worker.isFailing = false ∨ s.imp.worker.isFailing = true ∨
      s.imp.worker.inApplicationHandler = true) : careful = s.careful := by
    simpa [meets, Imp.throwsNow_eq_false hworks hgoes] using hcareful
  have hfails (hpc : s.imp.worker.isFailing = false) (hpc' : imp.worker.isFailing = true)
      (hhandler : s.imp.worker.inApplicationHandler = false) :
      careful = (s.careful && !(s.accepted || s.imp.isProvisioned)) := by
    have hthrows := Imp.isFailing_of_works hworks hpc hhandler
    simpa [meets, ← hthrows, hpc'] using hcareful
  obtain rfl : accepted = s.accepted := haccepted
  cases Imp.work_cases hworks with
  | goes hpc hgoes =>
      rw [hpc] at h
      have hcareful := hsame (by cases hgoes <;> simp [hpc, WorkerPc.isFailing])
      exact (h.goes hgoes).congr ⟨rfl, rfl, Iff.rfl⟩ rfl hcareful
  | @throws pc pc' hpc hthrows =>
      have hlogged : s.imp.Same (s.imp.throws pc') := Imp.same_of_trace rfl rfl rfl (by simp)
      rw [hpc] at h hfails hsame
      cases hthrows with
      | cancelling => exact h.congr hlogged rfl (hsame (.inr (.inl rfl)))
      | inHandler =>
          cases outcome with
          | ok => simp [Imp.works, hpc, Imp.orThrows, Imp.goto, Imp.log] at hworks
          | threw => simp [Imp.handlersReturn, hpc, WorkerPc.inApplicationHandler] at hreturn
      | inOnError => trivial
      | provisioning => exact fails h.1 hlogged rfl h.2 (hfails rfl rfl rfl)
      | testCertFile | testKeyFile | createClient | setConnected | setCallbacks =>
          exact fails h.1 hlogged rfl h.2.1 (hfails rfl rfl rfl)
  | creates hpc =>
      rw [hpc] at h
      exact h.congr (Imp.same_of_trace rfl rfl rfl (by simp)) rfl (hsame (.inl rfl))
  | connects hpc =>
      rw [hpc] at h
      exact h.congr ⟨rfl, rfl, Iff.rfl⟩ rfl (hsame (.inl rfl))
  | cannotConnect hpc =>
      rw [hpc] at h hfails
      exact fails h.1 (Imp.same_of_trace rfl rfl rfl (by simp)) rfl h.2.1 (hfails rfl rfl rfl)
  | storesHandler hpc | readsToken hpc | readsCertificateId hpc | erasesHandler hpc =>
      rw [hpc] at h
      exact h.congr ⟨rfl, rfl, Iff.rfl⟩ rfl (hsame (.inl rfl))
  | publishes hpc =>
      rw [hpc] at h
      exact ⟨(Imp.reported_append rfl rfl).trans h.1, (hsame (.inl rfl)).trans h.2⟩
  | cancelErases hpc =>
      rw [hpc] at h hsame
      exact h.congr ⟨rfl, rfl, Iff.rfl⟩ rfl (hsame (.inr (.inl rfl)))
  | callsOnProvisioned hpc =>
      rw [hpc] at h
      exact ⟨.inl ⟨Imp.reported_report h.1 rfl rfl, rfl⟩, (hsame (.inl rfl)).trans h.2⟩
  | callsOnError hpc =>
      rw [hpc] at h
      exact ⟨.inr ⟨Imp.reported_report h.1 rfl rfl, h.2.2.1, rfl⟩, (hsame (.inl rfl)).trans h.2.1⟩
  | @callsNobody connected hpc hnobody =>
      cases connected <;> simp [hregistered] at hnobody
  | destroys => trivial
  | catches hpc =>
      rw [hpc] at h hsame
      obtain rfl := hsame (.inl rfl)
      exact ⟨Imp.reported_report h.1 rfl rfl, h.2⟩

/-! ### Runs -/

theorem sound_congr (hsame : s.imp.Same t.imp) (haccepted : t.accepted = s.accepted) :
    t.Sound ↔ s.Sound := by
  simp only [Sound, hsame.reported, hsame.isProvisioned, haccepted]

structure Coherent (s : Watched) : Prop where
  registered : s.handled = true → s.imp.onProvisioned = true ∧ s.imp.onError = true
  along : s.handled = true → s.Along s.imp.worker

theorem Along.observes_step (h : s.Along s.imp.worker) (hsteps : s.imp.Steps a t.imp)
    (hworker : ∀ outcome, a ≠ .worker outcome) (hstart : a ≠ .startWorker)
    (haccepted : t.accepted = (s.accepted || s.accepts a))
    (hcareful : t.careful = (s.careful && s.meets a)) : t.Along t.imp.worker := by
  have hcareful : t.careful = (s.careful && !(s.accepts a && s.imp.worker.isFailing)) := by
    cases a with
    | worker outcome => exact absurd rfl (hworker outcome)
    | _ => exact hcareful
  obtain hended | ⟨hsame, hpc | ⟨w, w', hpc, hpc'⟩⟩ := hsteps.shows hworker hstart
  · cases hpc : t.imp.worker with
    | returned | escaped => trivial
    | _ => simp [hpc, WorkerPc.hasEnded] at hended
  · rw [hpc]
    exact h.observes hsame haccepted hcareful
  · rw [hpc] at h hcareful
    rw [hpc']
    exact h.observes hsame haccepted hcareful

namespace Coherent

theorem init : init.Coherent := ⟨nofun, nofun⟩

theorem step (h : s.Coherent) (hstep : s.step a = some t) : t.Coherent := by
  obtain ⟨imp, himp, ht⟩ := Option.map_eq_some_iff.mp hstep
  split_ifs at ht with hstart
  · subst hstart ht
    rw [Imp.step] at himp
    split_ifs at himp
    cases himp
    refine ⟨fun hhandled => ?_, fun _ => ⟨rfl, rfl, rfl, List.not_mem_nil⟩⟩
    simpa [Imp.registered] using hhandled
  · subst ht
    have hparts (hhandled : (s.handled && imp.registered && s.imp.handlersReturn a) = true) :
        (s.handled = true ∧ imp.registered = true) ∧ s.imp.handlersReturn a = true := by
      simpa using hhandled
    refine ⟨fun hhandled => ?_, fun hhandled => ?_⟩
    · simpa [Imp.registered] using (hparts hhandled).1.2
    · obtain ⟨⟨hbefore, -⟩, hreturn⟩ := hparts hhandled
      cases a with
      | worker outcome =>
          exact (h.along hbefore).works (h.registered hbefore) hreturn himp (by simp) rfl
      | _ => exact (h.along hbefore).observes_step (Imp.step_cases himp) (by simp) hstart rfl rfl

end Coherent

theorem coherent_of_reachable (h : Runs.Reachable step (fun _ _ => True) init s) : s.Coherent :=
  h.invariant Coherent .init fun _ _ _ hs _ hstep => hs.step hstep

/-- Up to the answer to the RegisterThing request, which is accepted. -/
def answered : List Action :=
  List.flatten [[.launchProvisioning true true], Action.connects, Action.createsKeys,
    Action.asksToRegister, [.sent .register true, .message .registerAccepted], Action.goesOn 5,
    Action.works 4]

end Watched

end Shapeware.AwsFleetProv
