import Shapeware.ZeroMq.WorkerRep
import Shapeware.ZeroMq.WorkerReq

/-!
# Stopping the worker

`deactivate` clears `m_runThd` and notifies `m_cvar` without `m_mux`, which every other notification
of the service holds. So the notification can fall between the worker's test of its predicate and
its block, and is missed; nobody notifies again, and `deactivate` joins a worker that sleeps on.
-/

namespace Shapeware.ZeroMq

open Runs Stepped

/-- The wait on `m_cvar` that `workerReq` is in. -/
def ReqWorker.wait (w : ReqWorker) : Option Wait :=
  match w.pc with
  | .waitOpen wait | .waitSend wait => some wait
  | _ => none

/-- The wait on `m_cvar` that `workerRep` is in. -/
def RepWorker.wait (w : RepWorker) : Option Wait :=
  match w.pc with
  | .waitOpen wait | .waitReply wait => some wait
  | _ => none

/-- A worker that stops when it is asked to, unless it sleeps. The rank falls on its way out. -/
structure Stopping {W : Type} (P : Program W) (wait : W → Option Wait) where
  stopRank : W → Nat
  notified : ∀ w, wait (P.notified w) = (wait w).map Wait.notified
  step : ∀ imp w outcome r, P.step imp w outcome = some r → r.imp.runThd = imp.runThd ∧
    (wait r.worker = some .block → imp.runThd = true) ∧
    (wait r.worker = some .blocked → wait w = some .block)
  sleeps : ∀ imp w, wait w = some .block →
    ∃ w', P.step imp w .ok = some { imp, worker := w' } ∧ wait w' = some .blocked
  stops : ∀ imp w, imp.runThd = false → wait w ≠ some .block → wait w ≠ some .blocked →
    P.finished w = false →
    ∃ outcome r, P.step imp w outcome = some r ∧ stopRank r.worker < stopRank w

/-- A notification wakes a sleeping worker, and does not reach one that is about to sleep. -/
theorem Stopping.block_of_notified {W : Type} {P : Program W} {wait : W → Option Wait}
    (H : Stopping P wait) {w : W}
    (h : wait (P.notified w) = some .block ∨ wait (P.notified w) = some .blocked) :
    wait w = some .block := by
  rw [H.notified] at h
  cases hw : wait w with
  | none => simp [hw] at h
  | some w' => cases w' <;> simp [hw, Wait.notified] at h ⊢

namespace Service

variable {W T : Type} [DecidableEq T] {P : Program W} {wait : W → Option Wait}
  {s s' : Service W T} {a : Action T}

/-- Every `deactivate` that has cleared `m_runThd` has also notified `m_cvar`, and there is one. -/
def Deactivated (s : Service W T) : Prop :=
  s.imp.runThd = false ∧ ∀ t, s.threads t ≠ .deactivating

/-- The worker is blocked, and of the calls in progress none has a notification ahead. -/
def Hangs (wait : W → Option Wait) (s : Service W T) : Prop :=
  s.Deactivated ∧ wait s.worker = some .blocked

/-- When `deactivate` notifies, the worker is not between its test and its block, unless another
`deactivate` is still to notify. -/
def NotifiesInTime (wait : W → Option Wait) (s : Service W T) (a : Action T) : Prop :=
  ∀ t, a = .resume t → s.threads t = .deactivating → wait s.worker = some .block →
    ∃ t', t' ≠ t ∧ s.threads t' = .deactivating

/-- A worker that is to stop and about to sleep, or asleep, will still be notified. -/
structure WillBeNotified (wait : W → Option Wait) (s : Service W T) : Prop where
  stopped : ∀ t, s.threads t = .deactivating → s.imp.runThd = false
  notified : s.imp.runThd = false → wait s.worker = some .block ∨ wait s.worker = some .blocked →
    ∃ t, s.threads t = .deactivating

namespace WillBeNotified

omit [DecidableEq T] in
theorem init (wait : W → Option Wait) :
    WillBeNotified wait (Service.init P : Service W T) := by
  constructor <;> simp [Service.init]

omit [DecidableEq T] in
/-- A step that leaves `m_runThd` and `deactivate` alone, and at most notifies the worker. -/
theorem frame (H : Stopping P wait) (h : WillBeNotified wait s)
    (hrun : s'.imp.runThd = s.imp.runThd)
    (hworker : s'.worker = s.worker ∨ s'.worker = P.notified s.worker)
    (hthreads : ∀ t, s'.threads t = .deactivating ↔ s.threads t = .deactivating) :
    WillBeNotified wait s' := by
  refine ⟨fun t ht => hrun.trans (h.stopped t ((hthreads t).mp ht)), fun hstop hwait => ?_⟩
  have hbefore : wait s.worker = some .block ∨ wait s.worker = some .blocked := by
    obtain hsame | hnotified := hworker
    · exact hsame ▸ hwait
    · exact .inl (H.block_of_notified (hnotified ▸ hwait))
  obtain ⟨t, ht⟩ := h.notified (hrun.symm.trans hstop) hbefore
  exact ⟨t, (hthreads t).mpr ht⟩

theorem update_iff {t : T} {pc : ThreadPc} (hold : s.threads t ≠ .deactivating)
    (hnew : pc ≠ .deactivating) (t' : T) :
    Function.update s.threads t pc t' = .deactivating ↔ s.threads t' = .deactivating := by
  by_cases ht : t' = t
  · subst ht
    simp [hold, hnew]
  · rw [Function.update_of_ne ht]

theorem notified_iff (pc : ThreadPc) : pc.notified = .deactivating ↔ pc = .deactivating := by
  cases pc <;> simp [ThreadPc.notified]

theorem step (H : Stopping P wait) (h : WillBeNotified wait s) (hin : NotifiesInTime wait s a)
    (hstep : Service.step P s a = some s') : WillBeNotified wait s' := by
  cases Service.step_cases hstep with
  | opening henter | closing henter =>
      exact h.frame H rfl (.inr rfl) (update_iff (by simp [henter.1]) (by simp))
  | accepts => exact h.frame H rfl (.inr rfl) fun _ => Iff.rfl
  | openAlready | closeAlready | refuses | registersOnMessage | registersOnReqTimeout =>
      exact h.frame H rfl (.inl rfl) fun _ => Iff.rfl
  | opened hpc | openWaits hpc | closed hpc | closeWaits hpc | joins hpc =>
      exact h.frame H rfl (.inl rfl) (update_iff (by simp [hpc]) (by simp))
  | wakesWorker => exact h.frame H rfl (.inr rfl) fun _ => Iff.rfl
  | @wakes t =>
      refine h.frame H rfl (.inl rfl) fun t' => ?_
      by_cases ht : t' = t
      · subst ht
        simp [notified_iff]
      · simp only [Function.update_of_ne ht]
  | @stops t => exact ⟨fun _ _ => rfl, fun _ _ => ⟨t, Function.update_self ..⟩⟩
  | @notifies t hpc =>
      refine ⟨fun _ _ => h.stopped t hpc, fun _ hwait => ?_⟩
      -- A sleeping worker has been woken, so this one had not fallen asleep yet.
      obtain ⟨t', hne, ht'⟩ := hin t rfl hpc (H.block_of_notified hwait)
      exact ⟨t', (Function.update_of_ne hne _ _).trans ht'⟩
  | @works outcome r hwork =>
      obtain ⟨hrun, htested, hslept⟩ := H.step _ _ _ _ hwork
      have hthreads : ∀ t, (s.works r).threads t = .deactivating ↔ s.threads t = .deactivating := by
        intro t
        rw [works]
        split_ifs
        · exact notified_iff _
        · rfl
      refine ⟨fun t ht => hrun.trans (h.stopped t ((hthreads t).mp ht)), fun hstop hwait => ?_⟩
      have hstopped : s.imp.runThd = false := hrun.symm.trans hstop
      obtain htest | hsleep := hwait
      · exact absurd ((htested htest).symm.trans hstopped) (by simp)
      · obtain ⟨t, ht⟩ := h.notified hstopped (.inl (hslept hsleep))
        exact ⟨t, (hthreads t).mpr ht⟩

end WillBeNotified

theorem willBeNotified_of_reachable (H : Stopping P wait)
    (h : Reachable (step P) (NotifiesInTime wait) (init P) s) : WillBeNotified wait s :=
  h.invariant _ (.init wait) fun _ _ _ hinv hin hstep => hinv.step H hin hstep

theorem not_hangs (H : Stopping P wait)
    (h : Reachable (step P) (NotifiesInTime wait) (init P) s) : ¬ s.Hangs wait := by
  rintro ⟨⟨hstop, hnone⟩, hblocked⟩
  obtain ⟨t, ht⟩ := (willBeNotified_of_reachable H h).notified hstop (.inr hblocked)
  exact hnone t ht

/-- A stopped worker that is awake, with nobody left to notify it, is done in some steps of its own. -/
theorem leads_finished (H : Stopping P wait) (hdeact : s.Deactivated)
    (hblock : wait s.worker ≠ some .block) (hblocked : wait s.worker ≠ some .blocked) :
    Leads (step P) (fun _ a => a.isWorker = true) s fun s => P.finished s.worker = true := by
  refine leads_of_rank (fun s => s.Deactivated ∧ wait s.worker ≠ some .block ∧
    wait s.worker ≠ some .blocked) (fun s => H.stopRank s.worker) ?_ ⟨hdeact, hblock, hblocked⟩
  rintro s ⟨⟨hstop, hnone⟩, hblock, hblocked⟩ hfinished
  obtain ⟨outcome, r, hwork, hrank⟩ :=
    H.stops s.imp s.worker hstop hblock hblocked (by simpa using hfinished)
  obtain ⟨hrun, htested, hslept⟩ := H.step _ _ _ _ hwork
  refine ⟨.worker outcome, s.works r, rfl, by simp [step, hwork],
    ⟨⟨hrun.trans hstop, fun t => ?_⟩, fun htest => ?_, fun hsleep => ?_⟩, hrank⟩
  · rw [works]
    split_ifs
    · exact fun ht => hnone t ((WillBeNotified.notified_iff _).mp ht)
    · exact hnone t
  · exact absurd ((htested htest).symm.trans hstop) (by simp)
  · exact hblock (hslept hsleep)

/-- A notification that comes in between is missed: the worker goes to sleep. -/
theorem hangs_of_late (H : Stopping P wait) (h : WillBeNotified wait s)
    (hstep : step P s a = some s') (hlate : ¬ NotifiesInTime wait s a) :
    ∃ s'', step P s' (.worker .ok) = some s'' ∧ s''.Hangs wait := by
  simp only [NotifiesInTime, not_forall, not_exists, not_and] at hlate
  obtain ⟨t, rfl, hpc, hblock, hlast⟩ := hlate
  have hwait : wait (P.notified s.worker) = some .block := by simp [H.notified, hblock, Wait.notified]
  obtain ⟨w', hwork, hblocked⟩ := H.sleeps s.imp _ hwait
  cases Service.step_cases hstep with
  | notifies =>
      refine ⟨_, congrArg (Option.map _) hwork, ⟨h.stopped t hpc, fun t' => ?_⟩, hblocked⟩
      by_cases ht : t' = t
      · simp [works, ht]
      · simpa [works, Function.update_of_ne ht] using hlast t' ht
  | opened hother | openWaits hother | closed hother | closeWaits hother | joins hother =>
      cases hpc.symm.trans hother

end Service

/-! ### The two workers -/

namespace ReqWorker

def stopRank (w : ReqWorker) : Nat :=
  match w.pc with
  | .finished | .waitOpen .block | .waitOpen .blocked | .waitSend .block | .waitSend .blocked => 0
  | .loop | .checkRun => 1
  | .waitOpen .test | .reportClosed => 2
  | .lock | .waitOpen .relock | .close => 3
  | .disconnect => 4
  | .checkClose => 5
  | .onMessage _ | .onReqTimeout => 6
  | .recv | .poll => 7
  | .send _ => 8
  | .waitSend .test => 9
  | .waitSend .relock | .reportOpened => 10
  | .connect => 11
  | .setsockopt => 12
  | .create => 13

theorem wait_notified (w : ReqWorker) : w.notified.wait = w.wait.map Wait.notified := by
  obtain ⟨pc, socket, reset⟩ := w
  cases pc <;> rfl

theorem step_wait {imp : Imp} {w : ReqWorker} {outcome : Outcome} {r : Stepped ReqWorker}
    (h : w.step imp outcome = some r) : r.imp.runThd = imp.runThd ∧
      (r.worker.wait = some .block → imp.runThd = true) ∧
      (r.worker.wait = some .blocked → w.wait = some .block) := by
  obtain ⟨pc, socket, reset⟩ := w
  cases pc with
  | loop | checkRun | checkClose =>
      obtain ⟨rfl, rfl⟩ := goes_cases h
      refine ⟨rfl, ?_⟩
      simp only [wait, goto]
      split_ifs <;> simp
  | lock =>
      obtain ⟨rfl, rfl⟩ := goes_cases h
      simp [wait, goto]
  | waitOpen w =>
      obtain ⟨w', hgoes, rfl, rfl⟩ | ⟨rfl, _, hdone⟩ := waits_cases h
      · cases hgoes <;> simp_all [wait, goto]
      · obtain ⟨rfl, rfl⟩ := goes_cases hdone
        simp [wait, goto]
  | waitSend w =>
      obtain ⟨w', hgoes, rfl, rfl⟩ | ⟨rfl, _, hdone⟩ := waits_cases h
      · cases hgoes <;> simp_all [wait, goto]
      · split_ifs at hdone <;> obtain ⟨rfl, rfl⟩ := goes_cases hdone <;> simp [wait, goto]
  | create | setsockopt | connect | send | disconnect | close =>
      obtain ⟨rfl, rfl⟩ | ⟨rfl, rfl⟩ := operates_cases h <;> simp [wait, goto]
  | reportOpened | reportClosed =>
      obtain ⟨rfl, rfl⟩ := reports_cases h
      simp [wait, goto]
  | poll =>
      obtain ⟨input, rfl, rfl⟩ | ⟨rfl, rfl⟩ := polls_cases h
      · cases input <;> simp [wait, goto]
      · simp [wait, goto]
  | recv =>
      obtain ⟨reply, rfl, rfl⟩ | ⟨rfl, rfl⟩ := receives_cases h
      · cases reply <;> simp [wait, goto]
      · simp [wait, goto]
  | onMessage | onReqTimeout =>
      obtain ⟨rfl, rfl⟩ := calls_cases h
      simp [wait, goto]
  | finished => cases h

theorem sleeps {imp : Imp} {w : ReqWorker} (h : w.wait = some .block) :
    ∃ w', w.step imp .ok = some { imp, worker := w' } ∧ w'.wait = some .blocked := by
  obtain ⟨pc, socket, reset⟩ := w
  cases pc with
  | waitOpen w | waitSend w =>
      obtain rfl := Option.some.inj h
      exact ⟨_, rfl, rfl⟩
  | _ => cases h

theorem stops {imp : Imp} {w : ReqWorker} (hstop : imp.runThd = false)
    (hblock : w.wait ≠ some .block) (hblocked : w.wait ≠ some .blocked)
    (hgoes : workerReq.finished w = false) :
    ∃ outcome r, w.step imp outcome = some r ∧ r.worker.stopRank < w.stopRank := by
  obtain ⟨pc, socket, reset⟩ := w
  cases pc with
  | poll => exact ⟨.polled false, _, rfl, by simp [stopRank, goto]⟩
  | recv => exact ⟨.received none, _, rfl, by simp [stopRank, goto]⟩
  | loop | checkRun | checkClose => exact ⟨.ok, _, rfl, by simp [stopRank, goto, hstop]⟩
  | waitOpen w =>
      cases w with
      | test => exact ⟨.ok, _, waits_test (by simp [hstop]) .., by simp [stopRank, goto]⟩
      | relock => exact ⟨.ok, _, rfl, by simp [stopRank, goto]⟩
      | block => exact absurd rfl hblock
      | blocked => exact absurd rfl hblocked
  | waitSend w =>
      cases w with
      | test =>
          by_cases hsend : imp.sendMessage = true
          · exact ⟨.ok, _, (waits_test (by simp [hstop]) ..).trans (congrFun (if_pos hsend) _),
              by simp [stopRank, goto]⟩
          · exact ⟨.ok, _, (waits_test (by simp [hstop]) ..).trans (congrFun (if_neg hsend) _),
              by simp [stopRank, goto]⟩
      | relock => exact ⟨.ok, _, rfl, by simp [stopRank, goto]⟩
      | block => exact absurd rfl hblock
      | blocked => exact absurd rfl hblocked
  | finished => simp [workerReq] at hgoes
  | _ => exact ⟨.ok, _, rfl, by simp [stopRank, goto]⟩

def stopping : Stopping workerReq ReqWorker.wait where
  stopRank := stopRank
  notified := wait_notified
  step _ _ _ _ := step_wait
  sleeps _ _ := sleeps
  stops _ _ := stops

end ReqWorker

namespace RepWorker

def stopRank (w : RepWorker) : Nat :=
  match w.pc with
  | .finished | .waitOpen .block | .waitOpen .blocked | .waitReply .block | .waitReply .blocked => 0
  | .loop | .checkRun => 1
  | .waitOpen .test | .reportClosed => 2
  | .lock | .waitOpen .relock | .close => 3
  | .unbind => 4
  | .checkClose => 5
  | .send _ => 6
  | .waitReply .test => 7
  | .waitReply .relock | .clearSend => 8
  | .onMessage _ => 9
  | .recv => 10
  | .relock _ => 11
  | .poll => 12
  | .unlock => 13
  | .reportOpened => 14
  | .bind => 15
  | .create => 16

theorem wait_notified (w : RepWorker) : w.notified.wait = w.wait.map Wait.notified := by
  obtain ⟨pc, socket⟩ := w
  cases pc <;> rfl

theorem step_wait {imp : Imp} {w : RepWorker} {outcome : Outcome} {r : Stepped RepWorker}
    (h : w.step imp outcome = some r) : r.imp.runThd = imp.runThd ∧
      (r.worker.wait = some .block → imp.runThd = true) ∧
      (r.worker.wait = some .blocked → w.wait = some .block) := by
  obtain ⟨pc, socket⟩ := w
  cases pc with
  | loop | checkRun | relock | checkClose =>
      obtain ⟨rfl, rfl⟩ := goes_cases h
      refine ⟨rfl, ?_⟩
      simp only [wait, goto]
      split_ifs <;> simp
  | lock | unlock | clearSend =>
      obtain ⟨rfl, rfl⟩ := goes_cases h
      simp [wait, goto]
  | waitOpen w =>
      obtain ⟨w', hgoes, rfl, rfl⟩ | ⟨rfl, _, hdone⟩ := waits_cases h
      · cases hgoes <;> simp_all [wait, goto]
      · obtain ⟨rfl, rfl⟩ := goes_cases hdone
        simp [wait, goto]
  | waitReply w =>
      obtain ⟨w', hgoes, rfl, rfl⟩ | ⟨rfl, _, hdone⟩ := waits_cases h
      · cases hgoes <;> simp_all [wait, goto]
      · split_ifs at hdone <;> obtain ⟨rfl, rfl⟩ := goes_cases hdone <;> simp [wait, goto]
  | create | bind | send | unbind | close =>
      obtain ⟨rfl, rfl⟩ | ⟨rfl, rfl⟩ := operates_cases h <;> simp [wait, goto]
  | reportOpened | reportClosed =>
      obtain ⟨rfl, rfl⟩ := reports_cases h
      simp [wait, goto]
  | poll => obtain ⟨input, rfl, rfl⟩ | ⟨rfl, rfl⟩ := polls_cases h <;> simp [wait, goto]
  | recv =>
      obtain ⟨request, rfl, rfl⟩ | ⟨rfl, rfl⟩ := receives_cases h
      · cases request <;> simp [wait, goto]
      · simp [wait, goto]
  | onMessage =>
      obtain ⟨rfl, rfl⟩ := calls_cases h
      simp [wait, goto]
  | finished => cases h

theorem sleeps {imp : Imp} {w : RepWorker} (h : w.wait = some .block) :
    ∃ w', w.step imp .ok = some { imp, worker := w' } ∧ w'.wait = some .blocked := by
  obtain ⟨pc, socket⟩ := w
  cases pc with
  | waitOpen w | waitReply w =>
      obtain rfl := Option.some.inj h
      exact ⟨_, rfl, rfl⟩
  | _ => cases h

theorem stops {imp : Imp} {w : RepWorker} (hstop : imp.runThd = false)
    (hblock : w.wait ≠ some .block) (hblocked : w.wait ≠ some .blocked)
    (hgoes : workerRep.finished w = false) :
    ∃ outcome r, w.step imp outcome = some r ∧ r.worker.stopRank < w.stopRank := by
  obtain ⟨pc, socket⟩ := w
  cases pc with
  | poll => exact ⟨.polled false, _, rfl, by simp [stopRank, goto]⟩
  | recv => exact ⟨.received none, _, rfl, by simp [stopRank, goto]⟩
  | loop | checkRun | checkClose => exact ⟨.ok, _, rfl, by simp [stopRank, goto, hstop]⟩
  | relock input => cases input <;> exact ⟨.ok, _, rfl, by simp [stopRank, goto]⟩
  | waitOpen w =>
      cases w with
      | test => exact ⟨.ok, _, waits_test (by simp [hstop]) .., by simp [stopRank, goto]⟩
      | relock => exact ⟨.ok, _, rfl, by simp [stopRank, goto]⟩
      | block => exact absurd rfl hblock
      | blocked => exact absurd rfl hblocked
  | waitReply w =>
      cases w with
      | test =>
          by_cases hsend : imp.sendMessage = true
          · exact ⟨.ok, _, (waits_test (by simp [hstop]) ..).trans (congrFun (if_pos hsend) _),
              by simp [stopRank, goto]⟩
          · exact ⟨.ok, _, (waits_test (by simp [hstop]) ..).trans (congrFun (if_neg hsend) _),
              by simp [stopRank, goto]⟩
      | relock => exact ⟨.ok, _, rfl, by simp [stopRank, goto]⟩
      | block => exact absurd rfl hblock
      | blocked => exact absurd rfl hblocked
  | finished => simp [workerRep] at hgoes
  | _ => exact ⟨.ok, _, rfl, by simp [stopRank, goto]⟩

def stopping : Stopping workerRep RepWorker.wait where
  stopRank := stopRank
  notified := wait_notified
  step _ _ _ _ := step_wait
  sleeps _ _ := sleeps
  stops _ _ := stops

end RepWorker

/-! ### The shutdown -/

namespace Service

variable {W T : Type} [DecidableEq T]

/-- What `deactivate` relies on when it joins: the worker is not left asleep, and once every
notification is out it can run to its end. -/
structure Wakes (P : Program W) (wait : W → Option Wait) (s : Service W T) : Prop where
  not_hangs : ¬ s.Hangs wait
  leads_finished : s.Deactivated → wait s.worker ≠ some .block →
    Leads (step P) (fun _ a => a.isWorker = true) s fun s => P.finished s.worker = true

theorem wakes_of_reachable {P : Program W} {wait : W → Option Wait} (H : Stopping P wait)
    {s : Service W T} (h : Reachable (step P) (NotifiesInTime wait) (init P) s) :
    s.Wakes P wait where
  not_hangs := not_hangs H h
  leads_finished hdeact hblock :=
    leads_finished H hdeact hblock fun hblocked => not_hangs H h ⟨hdeact, hblocked⟩

end Service

variable {T : Type} [DecidableEq T]

/-- **The shutdown.** As long as `deactivate` never notifies between a worker's test of its predicate
and its block, no worker is left asleep, and each can run to its end. A notification that does come
in between, with no other one ahead, is missed: the worker's next step puts it to sleep. -/
theorem deactivate_wakes_workers :
    (∀ s : Service ReqWorker T, Reachable (Service.step workerReq)
        (Service.NotifiesInTime ReqWorker.wait) (Service.init workerReq) s →
      s.Wakes workerReq ReqWorker.wait ∧
      ∀ a s', Service.step workerReq s a = some s' → ¬ s.NotifiesInTime ReqWorker.wait a →
        ∃ s'', Service.step workerReq s' (.worker .ok) = some s'' ∧ s''.Hangs ReqWorker.wait) ∧
    ∀ s : Service RepWorker T, Reachable (Service.step workerRep)
        (Service.NotifiesInTime RepWorker.wait) (Service.init workerRep) s →
      s.Wakes workerRep RepWorker.wait ∧
      ∀ a s', Service.step workerRep s a = some s' → ¬ s.NotifiesInTime RepWorker.wait a →
        ∃ s'', Service.step workerRep s' (.worker .ok) = some s'' ∧ s''.Hangs RepWorker.wait :=
  ⟨fun _ h => ⟨Service.wakes_of_reachable ReqWorker.stopping h, fun _ _ =>
      Service.hangs_of_late ReqWorker.stopping
        (Service.willBeNotified_of_reachable ReqWorker.stopping h)⟩,
    fun _ h => ⟨Service.wakes_of_reachable RepWorker.stopping h, fun _ _ =>
      Service.hangs_of_late RepWorker.stopping
        (Service.willBeNotified_of_reachable RepWorker.stopping h)⟩⟩

section Runs

variable {W : Type} (wait : W → Option Wait) [Fintype T] (s : Service W T) (a : Action T)

instance : Decidable s.Deactivated := inferInstanceAs (Decidable (_ ∧ _))

instance : Decidable (s.NotifiesInTime wait a) := inferInstanceAs (Decidable (∀ _, _))

end Runs

/-- Either worker sleeps when `deactivate` notifies it. -/
theorem deactivate_wakes_workers_asleep :
    (∃ s : Service ReqWorker Unit, s.Deactivated ∧
      Leads (Service.step workerReq) (fun _ a => a.isWorker = true) s
        fun s => workerReq.finished s.worker = true) ∧
    ∃ s : Service RepWorker Unit, s.Deactivated ∧
      Leads (Service.step workerRep) (fun _ a => a.isWorker = true) s
        fun s => workerRep.finished s.worker = true := by
  constructor
  · have hrun : ∃ s : Service ReqWorker Unit, Reachable (Service.step workerReq)
        (Service.NotifiesInTime ReqWorker.wait) (Service.init workerReq) s ∧
        s.Deactivated ∧ s.worker.wait ≠ some .block :=
      exists_reachable (List.flatten [Action.working 4, [.deactivate (), .resume ()]])
        (by decide +kernel)
    obtain ⟨s, hreach, hdeactivated, hblock⟩ := hrun
    exact ⟨s, hdeactivated,
      (deactivate_wakes_workers.1 s hreach).1.leads_finished hdeactivated hblock⟩
  · have hrun : ∃ s : Service RepWorker Unit, Reachable (Service.step workerRep)
        (Service.NotifiesInTime RepWorker.wait) (Service.init workerRep) s ∧
        s.Deactivated ∧ s.worker.wait ≠ some .block :=
      exists_reachable (List.flatten [Action.working 4, [.deactivate (), .resume ()]])
        (by decide +kernel)
    obtain ⟨s, hreach, hdeactivated, hblock⟩ := hrun
    exact ⟨s, hdeactivated,
      (deactivate_wakes_workers.2 s hreach).1.leads_finished hdeactivated hblock⟩

/-! ### A worker that nobody wakes -/

namespace Service

/-- Nobody will notify the worker, which can only wake up without a notification. -/
def SleepsOn {W : Type} (P : Program W) (wait : W → Option Wait) (s : Service W T) : Prop :=
  ∀ t, Reachable (step P) (fun _ a => a ≠ .wakeWorker) s t → wait t.worker = some .blocked

/-- The only other thread is `deactivate`, in its join. -/
theorem sleepsOn_of_joining {W : Type} {P : Program W} {wait : W → Option Wait}
    {s : Service W Unit}
    (hsleeping : ∀ imp w outcome, wait w = some .blocked →
      P.step imp w outcome = none ∧ P.finished w = false)
    (hthread : s.threads () = .joining) (hblocked : wait s.worker = some .blocked) :
    s.SleepsOn P wait := by
  intro t hreach
  refine (hreach.invariant (fun s => s.threads () = .joining ∧ wait s.worker = some .blocked)
    ⟨hthread, hblocked⟩ ?_).2
  rintro s a s' ⟨hthread, hblocked⟩ hnot hstep
  have hbusy {pc : ThreadPc} (hpc : s.threads () = pc) (hne : pc ≠ .joining) : False :=
    hne (hpc.symm.trans hthread)
  cases step_cases hstep with
  | opening henter | closing henter | accepts henter => exact (hbusy henter.1 (by simp)).elim
  | stops hidle => exact (hbusy hidle (by simp)).elim
  | opened hpc | openWaits hpc | closed hpc | closeWaits hpc | notifies hpc =>
      exact (hbusy hpc (by simp)).elim
  | joins _ hdone =>
      exact absurd ((hsleeping s.imp _ .ok hblocked).2.symm.trans hdone) (by simp)
  | works hwork => exact absurd ((hsleeping _ _ _ hblocked).1.symm.trans hwork) (by simp)
  | wakesWorker => exact absurd rfl hnot
  | wakes => exact ⟨by simp [hthread, ThreadPc.notified], hblocked⟩
  | openAlready | closeAlready | refuses | registersOnMessage | registersOnReqTimeout =>
      exact ⟨hthread, hblocked⟩

end Service

theorem ReqWorker.sleeping {imp : Imp} {w : ReqWorker} {outcome : Outcome}
    (h : w.wait = some .blocked) :
    workerReq.step imp w outcome = none ∧ workerReq.finished w = false := by
  obtain ⟨pc, socket, flag⟩ := w
  cases pc with
  | waitOpen wait | waitSend wait =>
      obtain rfl : wait = .blocked := Option.some.inj h
      exact ⟨rfl, rfl⟩
  | _ => cases h

theorem RepWorker.sleeping {imp : Imp} {w : RepWorker} {outcome : Outcome}
    (h : w.wait = some .blocked) :
    workerRep.step imp w outcome = none ∧ workerRep.finished w = false := by
  obtain ⟨pc, socket⟩ := w
  cases pc with
  | waitOpen wait | waitReply wait =>
      obtain rfl : wait = .blocked := Option.some.inj h
      exact ⟨rfl, rfl⟩
  | _ => cases h

/-- Either worker has just found that the socket is not to be opened when `deactivate` clears the
flag and notifies; then it blocks, and `deactivate` waits for it. -/
theorem deactivate_misses_workers :
    (¬ ∀ s : Service ReqWorker Unit, Reachable (Service.step workerReq) (fun _ _ => True)
      (Service.init workerReq) s → ¬ (s.Hangs ReqWorker.wait ∧ s.SleepsOn workerReq ReqWorker.wait)) ∧
    ¬ ∀ s : Service RepWorker Unit, Reachable (Service.step workerRep) (fun _ _ => True)
      (Service.init workerRep) s →
        ¬ (s.Hangs RepWorker.wait ∧ s.SleepsOn workerRep RepWorker.wait) := by
  constructor
  · intro hall
    obtain ⟨s, hreach, hdeactivated, hblocked, hthread⟩ :
        ∃ s : Service ReqWorker Unit, Reachable (Service.step workerReq) (fun _ _ => True)
          (Service.init workerReq) s ∧ s.Deactivated ∧ s.worker.wait = some .blocked ∧
          s.threads () = .joining :=
      exists_reachable
        (List.flatten [Action.working 3, [.deactivate (), .resume ()], Action.working 1])
        (by decide +kernel)
    refine hall s hreach ⟨⟨hdeactivated, hblocked⟩, ?_⟩
    exact Service.sleepsOn_of_joining (fun _ _ _ => ReqWorker.sleeping) hthread hblocked
  · intro hall
    obtain ⟨s, hreach, hdeactivated, hblocked, hthread⟩ :
        ∃ s : Service RepWorker Unit, Reachable (Service.step workerRep) (fun _ _ => True)
          (Service.init workerRep) s ∧ s.Deactivated ∧ s.worker.wait = some .blocked ∧
          s.threads () = .joining :=
      exists_reachable
        (List.flatten [Action.working 3, [.deactivate (), .resume ()], Action.working 1])
        (by decide +kernel)
    refine hall s hreach ⟨⟨hdeactivated, hblocked⟩, ?_⟩
    exact Service.sleepsOn_of_joining (fun _ _ _ => RepWorker.sleeping) hthread hblocked

end Shapeware.ZeroMq
