import Shapeware.MqMessage.TaskQueue

/-!
# The worker of the task queue is always woken

The worker owns the mutex exactly where its code says so, and it goes to sleep only when nothing has
been pushed since it last looked and nobody has asked it to stop.
-/

namespace Shapeware.MqMessage

def WorkerPc.holdsLock {α : Type} : WorkerPc α → Bool
  | .wait w => w.holdsMux
  | .inner | .take | .unlockTask _ | .unlockEmpty => true
  | _ => false

namespace TaskQueue

variable {α T : Type} {s s' : TaskQueue α T}

/-! ### Lock discipline -/

/-- The inner loop of a stopped queue is left with the mutex held, and so is the outer loop. -/
structure Disciplined (s : TaskQueue α T) : Prop where
  owns : s.pc ≠ .outer → s.ownsLock = s.pc.holdsLock
  outer : s.pc = .outer → s.ownsLock = true → s.runWorkerThread = false
  run : s.pc = .take ∨ s.pc = .unlockEmpty → s.runWorkerThread = true
  noError : s.pc ≠ .systemError

namespace Disciplined

theorem free_of_not_owned (h : s.Disciplined) (howns : s.ownsLock = false) :
    s.pc ≠ .take ∧ s.pc ≠ .unlockEmpty := by
  constructor <;> intro hpc <;>
    · have hheld := h.owns (by simp [hpc])
      rw [howns, hpc] at hheld
      cases hheld

theorem not_block_of_free (h : s.Disciplined) (howns : s.ownsLock = false) :
    s.pc ≠ .wait .block := by
  intro hpc
  have hheld := h.owns (by simp [hpc])
  rw [howns, hpc] at hheld
  cases hheld

theorem lock_eq (h : s.Disciplined) (hpc : s.pc ≠ .outer) (hfree : s.pc.holdsLock = false)
    (pc : WorkerPc α) : s.lock pc = { s with pc, ownsLock := true } := by
  have howns : s.ownsLock = false := (h.owns hpc).trans hfree
  rw [lock, howns]
  rfl

theorem unlock_eq (h : s.Disciplined) (hpc : s.pc ≠ .outer) (hheld : s.pc.holdsLock = true)
    (pc : WorkerPc α) : s.unlock pc = { s with pc, ownsLock := false } := by
  have howns : s.ownsLock = true := (h.owns hpc).trans hheld
  rw [unlock, howns]
  rfl

theorem notified (h : s.Disciplined) : s.notified.Disciplined := by
  unfold TaskQueue.notified
  split
  case h_1 w hpc =>
    have howns := h.owns (by simp [hpc])
    refine ⟨fun _ => ?_, by simp, by simp, by simp⟩
    rw [howns, hpc]
    cases w <;> rfl
  case h_2 => exact h

theorem work (h : s.Disciplined) (hworks : s.Works s') : s'.Disciplined := by
  cases hworks with
  | goesRound hpc hrun =>
      have howns : s.ownsLock = false := by
        by_contra howns
        exact absurd (h.outer hpc (by simpa using howns)) (by simp [hrun])
      exact ⟨fun _ => howns, by simp, by simp, by simp⟩
  | finishes => exact ⟨fun _ => rfl, by simp, by simp, by simp⟩
  | locks hpc | relocks hpc =>
      rw [h.lock_eq (by simp [hpc]) (by rw [hpc]; rfl)]
      exact ⟨fun _ => rfl, by simp, by simp, by simp⟩
  | passes hpc | blocks hpc | drained hpc | takes hpc =>
      have howns := h.owns (by simp [hpc])
      rw [hpc] at howns
      exact ⟨fun _ => howns, by simp, fun _ => h.run (by simp_all), by simp⟩
  | sleeps | retests => exact ⟨fun _ => rfl, by simp, by simp, by simp⟩
  | looks hpc hrun =>
      have howns := h.owns (by simp [hpc])
      rw [hpc] at howns
      exact ⟨fun _ => howns, by simp, fun _ => hrun, by simp⟩
  | leaves hpc hrun => exact ⟨by simp, fun _ _ => hrun, by simp, by simp⟩
  | unlocksTask hpc | unlocksEmpty hpc =>
      rw [h.unlock_eq (by simp [hpc]) (by rw [hpc]; rfl)]
      exact ⟨by simp [WorkerPc.holdsLock], by simp, by simp, by simp⟩
  | starts hpc | ends hpc =>
      have howns := h.owns (by simp [hpc])
      rw [hpc] at howns
      exact ⟨fun _ => howns, by simp, by simp, by simp⟩

theorem step [DecidableEq T] (h : s.Disciplined) (hsteps : s.Steps s') : s'.Disciplined := by
  cases hsteps with
  | push => exact ⟨h.owns, h.outer, h.run, h.noError⟩
  | stop henter =>
      obtain ⟨htake, hempty⟩ := h.free_of_not_owned henter.2
      exact ⟨h.owns, fun _ _ => rfl, fun hpc => by tauto, h.noError⟩
  | notify => exact ⟨h.notified.owns, h.notified.outer, h.notified.run, h.notified.noError⟩
  | joined => exact ⟨h.owns, h.outer, h.run, h.noError⟩
  | work hworks => exact h.work hworks
  | wake => exact h.notified

end Disciplined

/-! ### No lost wakeup -/

@[simp]
theorem notified_callers : s.notified.callers = s.callers := by
  unfold TaskQueue.notified
  split <;> rfl

@[simp]
theorem notified_trace : s.notified.trace = s.trace := by
  unfold notified
  split <;> rfl

theorem callers_goesTo [DecidableEq T] {t u : T} {caller caller' : Caller}
    (h : (s.goesTo t caller).callers u = caller') (hne : caller ≠ caller') :
    u ≠ t ∧ s.callers u = caller' := by
  by_cases hut : u = t
  · simp only [goesTo, hut, Function.update_self] at h
    exact absurd h hne
  · exact ⟨hut, by simpa [goesTo, hut] using h⟩

/-- Nothing is left to do for a worker that waits, or is about to, unless `m_taskPushed` says so. -/
structure Awake (s : TaskQueue α T) : Prop where
  settled : s.pc = .outer ∨ s.pc = .lock ∨ (∃ w, s.pc = .wait w) → s.taskPushed = false →
    s.runWorkerThread = true → s.taskQueue = []
  stopping : s.pc = .lock ∨ (∃ w, s.pc = .wait w) → s.runWorkerThread = false →
    s.taskPushed = true
  drained : s.pc = .unlockEmpty → s.taskQueue = []
  blocking : s.pc = .wait .block → s.taskPushed = false
  blocked : s.pc = .wait .blocked → s.taskPushed = true → ∃ t, (s.callers t).owesNotify = true
  joining : ∀ t, s.callers t = .joining → s.runWorkerThread = false ∧ s.pc ≠ .wait .blocked
  destroying : ∀ t, s.callers t = .destroying → s.runWorkerThread = false

namespace Awake

theorem init : (init : TaskQueue α T).Awake := by
  constructor <;> simp [TaskQueue.init]

theorem notified (h : s.Awake) : s.notified.Awake ∧ s.notified.pc ≠ .wait .blocked := by
  unfold TaskQueue.notified
  split
  case h_1 w hpc =>
    refine ⟨⟨?_, ?_, ?_, ?_, ?_, ?_, ?_⟩, ?_⟩
    · exact fun _ => h.settled (.inr (.inr ⟨w, hpc⟩))
    · exact fun _ => h.stopping (.inr ⟨w, hpc⟩)
    · simp
    · cases w <;> simp_all [Wait.notified, h.blocking]
    · cases w <;> simp [Wait.notified]
    · intro t ht
      refine ⟨(h.joining t ht).1, ?_⟩
      cases w <;> simp [Wait.notified]
    · exact h.destroying
    · cases w <;> simp [Wait.notified]
  case h_2 hpc => exact ⟨h, hpc _⟩

/-- A worker that is busy need not be woken. -/
theorem of_busy (h : s.Awake) (hpc : s'.pc ≠ .outer ∧ s'.pc ≠ .lock ∧ s'.pc ≠ .unlockEmpty)
    (hwait : ∀ w, s'.pc ≠ .wait w) (hrun : s'.runWorkerThread = s.runWorkerThread)
    (hcallers : s'.callers = s.callers) : s'.Awake := by
  obtain ⟨houter, hlock, hempty⟩ := hpc
  refine ⟨fun hpc => ?_, fun hpc => ?_, fun hpc => absurd hpc hempty,
    fun hpc => absurd hpc (hwait _), fun hpc => absurd hpc (hwait _), fun t ht => ?_, ?_⟩
  · obtain hpc | hpc | ⟨w, hpc⟩ := hpc
    · exact absurd hpc houter
    · exact absurd hpc hlock
    · exact absurd hpc (hwait w)
  · obtain hpc | ⟨w, hpc⟩ := hpc
    · exact absurd hpc hlock
    · exact absurd hpc (hwait w)
  · rw [hcallers] at ht
    exact ⟨hrun.trans (h.joining t ht).1, hwait _⟩
  · rw [hcallers, hrun]
    exact h.destroying

theorem work (h : s.Awake) (hlock : s.Disciplined) (hworks : s.Works s') : s'.Awake := by
  cases hworks with
  | goesRound hpc hrun =>
      exact ⟨fun _ => h.settled (.inl hpc), fun _ hstop => absurd (hrun.symm.trans hstop) (by simp),
        by simp, by simp, by simp, fun t ht => ⟨(h.joining t ht).1, by simp⟩, h.destroying⟩
  | finishes | passes | looks | takes | starts | ends =>
      exact h.of_busy (by simp) (by simp) rfl rfl
  | locks hpc =>
      rw [hlock.lock_eq (by simp [hpc]) (by rw [hpc]; rfl)]
      exact ⟨fun _ => h.settled (.inr (.inl hpc)), fun _ => h.stopping (.inl hpc), by simp, by simp,
        by simp, fun t ht => ⟨(h.joining t ht).1, by simp⟩, h.destroying⟩
  | blocks hpc hpushed =>
      exact ⟨fun _ => h.settled (.inr (.inr ⟨_, hpc⟩)), fun _ => h.stopping (.inr ⟨_, hpc⟩), by simp,
        fun _ => hpushed, by simp, fun t ht => ⟨(h.joining t ht).1, by simp⟩, h.destroying⟩
  | sleeps hpc =>
      have hpushed := h.blocking hpc
      refine ⟨fun _ => h.settled (.inr (.inr ⟨_, hpc⟩)), fun _ => h.stopping (.inr ⟨_, hpc⟩), by simp,
        by simp, fun _ hset => ?_, fun t ht => ?_, h.destroying⟩
      · exact absurd (hpushed.symm.trans hset) (by simp)
      · -- a stopped queue has `m_taskPushed` set, so its worker does not block
        have hset := h.stopping (.inr ⟨_, hpc⟩) (h.joining t ht).1
        exact absurd (hpushed.symm.trans hset) (by simp)
  | retests hpc =>
      exact ⟨fun _ => h.settled (.inr (.inr ⟨_, hpc⟩)), fun _ => h.stopping (.inr ⟨_, hpc⟩), by simp,
        by simp, by simp, fun t ht => ⟨(h.joining t ht).1, by simp⟩, h.destroying⟩
  | leaves hpc hrun =>
      exact ⟨fun _ _ hgo => absurd (hrun.symm.trans hgo) (by simp), by simp, by simp, by simp,
        by simp, fun t ht => ⟨(h.joining t ht).1, by simp⟩, h.destroying⟩
  | drained hpc hqueue =>
      exact ⟨by simp, by simp, fun _ => hqueue, by simp, by simp,
        fun t ht => ⟨(h.joining t ht).1, by simp⟩, h.destroying⟩
  | unlocksTask hpc =>
      rw [hlock.unlock_eq (by simp [hpc]) (by rw [hpc]; rfl)]
      exact h.of_busy (by simp) (by simp) rfl rfl
  | relocks hpc =>
      rw [hlock.lock_eq (by simp [hpc]) (by rw [hpc]; rfl)]
      exact h.of_busy (by simp) (by simp) rfl rfl
  | unlocksEmpty hpc =>
      rw [hlock.unlock_eq (by simp [hpc]) (by rw [hpc]; rfl)]
      exact ⟨fun _ _ _ => h.drained hpc, by simp, by simp, by simp, by simp,
        fun t ht => ⟨(h.joining t ht).1, by simp⟩, h.destroying⟩

variable [DecidableEq T]

theorem step (h : s.Awake) (hlock : s.Disciplined) (hsteps : s.Steps s') : s'.Awake := by
  cases hsteps with
  | @push t task retval henter =>
      obtain ⟨_, hempty⟩ := hlock.free_of_not_owned henter.2
      refine ⟨by simp [push, goesTo], fun _ _ => rfl, fun hpc => absurd hpc hempty, fun hpc => ?_,
        fun _ _ => ⟨t, by simp [goesTo, Caller.owesNotify]⟩, fun u hu => ?_, fun u hu => ?_⟩
      · exact absurd hpc (hlock.not_block_of_free henter.2)
      · obtain ⟨_, hold⟩ := callers_goesTo hu (by simp)
        exact h.joining u hold
      · obtain ⟨_, hold⟩ := callers_goesTo hu (by simp)
        exact h.destroying u hold
  | @stop t caller henter howes =>
      obtain ⟨_, hempty⟩ := hlock.free_of_not_owned henter.2
      refine ⟨by simp [TaskQueue.stop, goesTo], fun _ _ => rfl, fun hpc => absurd hpc hempty,
        fun hpc => ?_, fun _ _ => ⟨t, by simpa [goesTo] using howes⟩, fun u hu => ?_, fun _ _ => rfl⟩
      · exact absurd hpc (hlock.not_block_of_free henter.2)
      · obtain ⟨_, hold⟩ := callers_goesTo hu (by rintro rfl; cases howes)
        exact ⟨rfl, (h.joining u hold).2⟩
  | @notify t caller hcaller =>
      obtain ⟨hawake, hblocked⟩ := h.notified
      refine ⟨hawake.settled, hawake.stopping, hawake.drained, hawake.blocking,
        fun hpc => absurd hpc hblocked, fun u hu => ⟨?_, hblocked⟩, fun u hu => ?_⟩
      · by_cases hut : u = t
        · obtain rfl | ⟨_, hold⟩ := hcaller
          · simp [goesTo, hut] at hu
          · exact hawake.destroying t (by rwa [notified_callers])
        · exact (hawake.joining u (by simpa [goesTo, hut] using hu)).1
      · obtain ⟨_, hold⟩ := callers_goesTo hu (by rintro rfl; simp at hcaller)
        exact hawake.destroying u hold
  | @joined t hcaller =>
      refine ⟨h.settled, h.stopping, h.drained, h.blocking, fun hpc hset => ?_, fun u hu => ?_,
        fun u hu => ?_⟩
      · obtain ⟨u, howes⟩ := h.blocked hpc hset
        have hut : u ≠ t := by
          rintro rfl
          rw [hcaller] at howes
          cases howes
        exact ⟨u, by simpa [goesTo, hut] using howes⟩
      · obtain ⟨_, hold⟩ := callers_goesTo hu (by simp)
        exact h.joining u hold
      · obtain ⟨_, hold⟩ := callers_goesTo hu (by simp)
        exact h.destroying u hold
  | work hworks => exact h.work hlock hworks
  | wake => exact h.notified.1

end Awake

/-! ### The join ends -/

def stopRank (s : TaskQueue α T) : Nat :=
  match s.pc with
  | .finished | .systemError => 0
  | .outer => 1
  | .inner | .unlockEmpty => 2
  | .wait .test | .relock => 3
  | .lock | .wait .relock | .processing _ => 4
  | .process _ => 5
  | .unlockTask _ => 6
  | .take | .wait .block | .wait .blocked => 7

theorem work_of_joining {t : T} (hlock : s.Disciplined) (hawake : s.Awake)
    (ht : s.callers t = .joining) (hpc : s.pc ≠ .finished) :
    ∃ s', s.work = some s' ∧ s'.callers = s.callers ∧ s'.stopRank < s.stopRank := by
  obtain ⟨hrun, hblocked⟩ := hawake.joining t ht
  cases hat : s.pc with
  | outer =>
      refine ⟨_, by simp only [work, hat]; rfl, ?_⟩
      rw [if_neg (by simp [hrun])]
      exact ⟨rfl, by simp [stopRank, hat]⟩
  | lock =>
      refine ⟨_, by simp only [work, hat]; rfl, ?_⟩
      rw [hlock.lock_eq (by simp [hat]) (by rw [hat]; rfl)]
      exact ⟨rfl, by simp [stopRank, hat]⟩
  | wait w =>
      have hpushed := hawake.stopping (.inr ⟨w, hat⟩) hrun
      cases w with
      | test =>
          refine ⟨_, by simp only [work, hat]; rfl, ?_⟩
          rw [if_pos hpushed]
          exact ⟨rfl, by simp [stopRank, hat]⟩
      | block => exact absurd (hpushed.symm.trans (hawake.blocking hat)) (by simp)
      | blocked => exact absurd hat hblocked
      | relock =>
          refine ⟨_, by simp only [work, hat]; rfl, ?_⟩
          exact ⟨rfl, by simp [stopRank, hat]⟩
  | inner =>
      refine ⟨_, by simp only [work, hat]; rfl, ?_⟩
      exact ⟨rfl, by simp [stopRank, hrun, hat]⟩
  | take => exact absurd (hrun.symm.trans (hlock.run (.inl hat))) (by simp)
  | unlockTask task =>
      refine ⟨_, by simp only [work, hat]; rfl, ?_⟩
      rw [hlock.unlock_eq (by simp [hat]) (by rw [hat]; rfl)]
      exact ⟨rfl, by simp [stopRank, hat]⟩
  | process task | processing task =>
      refine ⟨_, by simp only [work, hat]; rfl, ?_⟩
      exact ⟨rfl, by simp [stopRank, hat]⟩
  | relock =>
      refine ⟨_, by simp only [work, hat]; rfl, ?_⟩
      rw [hlock.lock_eq (by simp [hat]) (by rw [hat]; rfl)]
      exact ⟨rfl, by simp [stopRank, hat]⟩
  | unlockEmpty => exact absurd (hrun.symm.trans (hlock.run (.inr hat))) (by simp)
  | finished => exact absurd hat hpc
  | systemError => exact absurd hat hlock.noError

variable [DecidableEq T]

theorem disciplined_awake {allowed : TaskQueue α T → Action α T → Prop}
    (h : Runs.Reachable step allowed (init : TaskQueue α T) s) : s.Disciplined ∧ s.Awake := by
  apply h.invariant (fun s => s.Disciplined ∧ s.Awake)
  · exact ⟨⟨by simp [init], by simp [init], by simp [init], by simp [init]⟩, Awake.init⟩
  · rintro s a s' ⟨hlock, hawake⟩ - hstep
    have hsteps := step_cases hstep
    exact ⟨hlock.step hsteps, hawake.step hlock hsteps⟩

/-- The steps of the worker, with no help from anybody. -/
def Alone (_ : TaskQueue α T) (a : Action α T) : Prop := a = .worker

theorem leads_finished {t : T} (hlock : s.Disciplined) (hawake : s.Awake)
    (ht : s.callers t = .joining) : Runs.Leads step Alone s fun s => s.pc = .finished := by
  apply Runs.leads_of_rank (fun s => s.Disciplined ∧ s.Awake ∧ s.callers t = .joining) stopRank
  · rintro s ⟨hlock, hawake, ht⟩ hpc
    obtain ⟨s', hwork, hcallers, hrank⟩ := work_of_joining hlock hawake ht hpc
    have hsteps := step_cases (a := .worker) hwork
    exact ⟨.worker, s', rfl, hwork,
      ⟨hlock.step hsteps, hawake.step hlock hsteps, by rw [hcallers, ht]⟩, hrank⟩
  · exact ⟨hlock, hawake, ht⟩

omit [DecidableEq T] in
/-- A blocked worker that nobody is about to notify has nothing to do. -/
theorem Awake.idle_of_blocked (h : s.Awake) (hpc : s.pc = .wait .blocked)
    (hquiet : ∀ t, (s.callers t).owesNotify = false) :
    s.taskQueue = [] ∧ s.runWorkerThread = true := by
  have hpushed : s.taskPushed = false := by
    by_contra hset
    obtain ⟨t, howes⟩ := h.blocked hpc (by simpa using hset)
    rw [hquiet t] at howes
    cases howes
  have hrun : s.runWorkerThread = true := by
    by_contra hstop
    have hset := h.stopping (.inr ⟨_, hpc⟩) (by simpa using hstop)
    exact absurd (hpushed.symm.trans hset) (by simp)
  exact ⟨h.settled (.inr (.inr ⟨_, hpc⟩)) hpushed hrun, hrun⟩

/-- **No lost wakeup.** A blocked worker that nobody is about to notify has nothing to do; the worker
never locks the mutex twice nor unlocks it twice; and whoever waits for the worker to end needs no
more than the worker's own steps. -/
theorem no_lost_wakeup (h : Runs.Reachable step (fun _ _ => True) (init : TaskQueue α T) s) :
    (s.pc = .wait .blocked → (∀ t, (s.callers t).owesNotify = false) →
      s.taskQueue = [] ∧ s.runWorkerThread = true) ∧
    ((s.pc = .lock ∨ s.pc = .relock → s.ownsLock = false) ∧
      (s.pc = .unlockEmpty ∨ (∃ task, s.pc = .unlockTask task) → s.ownsLock = true) ∧
      s.pc ≠ .systemError) ∧
    ∀ t, s.callers t = .joining →
      s.pc ≠ .wait .blocked ∧ Runs.Leads step Alone s fun s => s.pc = .finished := by
  obtain ⟨hlock, hawake⟩ := disciplined_awake h
  refine ⟨hawake.idle_of_blocked, ⟨fun hpc => ?_, fun hpc => ?_, hlock.noError⟩, fun t ht => ?_⟩
  · obtain hpc | hpc := hpc <;> exact (hlock.owns (by simp [hpc])).trans (by rw [hpc]; rfl)
  · obtain hpc | ⟨task, hpc⟩ := hpc <;> exact (hlock.owns (by simp [hpc])).trans (by rw [hpc]; rfl)
  · exact ⟨(hawake.joining t ht).2, leads_finished hlock hawake ht⟩

/-- The worker has processed a task and sleeps; the destructor wakes it up. -/
theorem no_lost_wakeup_destroyed :
    (∃ s : TaskQueue Nat Bool, s.pc = .wait .blocked ∧ s.trace.length = 4 ∧
      s.taskQueue = [] ∧ s.runWorkerThread = true) ∧
    ∃ s : TaskQueue Nat Bool, s.callers true = .joining ∧
      Runs.Leads step Alone s fun s => s.pc = .finished := by
  have hasleep : ∃ s : TaskQueue Nat Bool, Runs.Reachable step (fun _ _ => True) init s ∧
      s.pc = .wait .blocked ∧ s.trace.length = 4 ∧ ∀ t, (s.callers t).owesNotify = false :=
    Runs.exists_reachable (List.flatten [[.pushToQueue false 1, .resume false],
      List.replicate 16 .worker]) (by decide +kernel)
  have hjoins : ∃ s : TaskQueue Nat Bool, Runs.Reachable step (fun _ _ => True) init s ∧
      s.callers true = .joining :=
    Runs.exists_reachable (List.flatten [[.pushToQueue false 1, .resume false],
      List.replicate 16 .worker, [.destroy true, .resume true]]) (by decide +kernel)
  obtain ⟨s, hs, hpc, htrace, hquiet⟩ := hasleep
  obtain ⟨s', hs', hjoining⟩ := hjoins
  exact ⟨⟨s, hpc, htrace, (no_lost_wakeup hs).1 hpc hquiet⟩,
    ⟨s', hjoining, ((no_lost_wakeup hs').2.2 true hjoining).2⟩⟩

end TaskQueue

end Shapeware.MqMessage
