import Shapeware.Library.Inevitably
import Shapeware.MqMessage.Fifo
import Shapeware.MqMessage.Settling

/-!
# The task queue gets done

As long as nobody calls the queue again, every step of the worker and of the callers leaves them with
less to do. So whatever the order of the steps, all tasks are processed, or else the queue was stopped
and the worker ends; and every call returns.
-/

namespace Shapeware.MqMessage

/-- What a caller is still to do; a notification may wake the worker up, which takes three steps. -/
def Caller.toDo : Caller → Nat
  | .idle => 0
  | .joining => 1
  | .pushed _ | .stopped => 4
  | .destroying => 5

namespace TaskQueue

variable {α T : Type} {s s' : TaskQueue α T} {a : Action α T}

/-- What the worker and the callers do by themselves, apart from waking up without a notification. -/
def OwnStep (_ : TaskQueue α T) : Action α T → Prop
  | .worker | .resume _ => True
  | .pushToQueue .. | .stopQueue _ | .destroy _ | .wakeWorker => False

theorem Works.callers_eq (hlock : s.Disciplined) (hworks : s.Works s') : s'.callers = s.callers := by
  cases hworks with
  | locks hpc | relocks hpc =>
      rw [hlock.lock_eq (by simp [hpc]) (by rw [hpc]; rfl)]
  | unlocksTask hpc | unlocksEmpty hpc =>
      rw [hlock.unlock_eq (by simp [hpc]) (by rw [hpc]; rfl)]
  | _ => rfl

theorem Works.runWorkerThread_eq (hlock : s.Disciplined) (hworks : s.Works s') :
    s'.runWorkerThread = s.runWorkerThread := by
  cases hworks with
  | locks hpc | relocks hpc =>
      rw [hlock.lock_eq (by simp [hpc]) (by rw [hpc]; rfl)]
  | unlocksTask hpc | unlocksEmpty hpc =>
      rw [hlock.unlock_eq (by simp [hpc]) (by rw [hpc]; rfl)]
  | _ => rfl

@[simp] theorem notified_runWorkerThread : s.notified.runWorkerThread = s.runWorkerThread := by
  unfold notified
  split <;> rfl

@[simp] theorem notified_finished : s.notified.pc = .finished ↔ s.pc = .finished := by
  unfold notified
  split
  case h_1 w hpc => simp [hpc]
  case h_2 => rfl

/-- Finitely many threads are in a call, and the worker has only ended when it was told to. -/
structure Started (s : TaskQueue α T) : Prop where
  finite : {t | s.callers t ≠ .idle}.Finite
  ended : s.pc = .finished → s.runWorkerThread = false

theorem Started.init : (init : TaskQueue α T).Started := by
  constructor <;> simp [TaskQueue.init]

theorem Works.ended (hlock : s.Disciplined) (hworks : s.Works s') (hpc : s'.pc = .finished) :
    s'.runWorkerThread = false := by
  cases hworks with
  | finishes _ hrun => exact hrun
  | locks hpc' | relocks hpc' =>
      rw [hlock.lock_eq (by simp [hpc']) (by rw [hpc']; rfl)] at hpc
      cases hpc
  | unlocksTask hpc' | unlocksEmpty hpc' =>
      rw [hlock.unlock_eq (by simp [hpc']) (by rw [hpc']; rfl)] at hpc
      cases hpc
  | looks | leaves | goesRound | passes | blocks | sleeps | retests | takes | drained | starts | ends =>
      cases hpc

variable [DecidableEq T]

theorem Started.step (h : s.Started) (hlock : s.Disciplined) (hsteps : s.Steps s') :
    s'.Started := by
  cases hsteps with
  | push => exact ⟨Runs.finite_update h.finite _ _, h.ended⟩
  | stop => exact ⟨Runs.finite_update h.finite _ _, fun _ => rfl⟩
  | notify =>
      refine ⟨?_, fun hpc => ?_⟩
      · exact Runs.finite_update (notified_callers (s := s) ▸ h.finite) _ _
      · simpa [goesTo] using h.ended (notified_finished.mp hpc)
  | joined => exact ⟨Runs.finite_update h.finite _ _, h.ended⟩
  | work hworks => exact ⟨hworks.callers_eq hlock ▸ h.finite, hworks.ended hlock⟩
  | wake => exact ⟨by simpa using h.finite, fun hpc => by simpa using h.ended (by simpa using hpc)⟩

theorem started_of_reachable {allowed : TaskQueue α T → Action α T → Prop}
    (h : Runs.Reachable TaskQueue.step allowed (TaskQueue.init : TaskQueue α T) s) : s.Started :=
  h.invariant_of_reachable Started Started.init fun _ _ _ hreach hs _ hstep =>
    hs.step (disciplined_awake hreach).1 (step_cases hstep)

/-! ### Every step counts -/

def toDo (F : Finset T) (s : TaskQueue α T) : Nat := s.rank + Runs.owed Caller.toDo F s.callers

/-- A caller notifies the worker, or returns from the join. -/
theorem resumes_cases {t : T} (hstep : s.resumes t = some s') :
    (∃ caller, s' = s.notified.goesTo t caller ∧ caller.toDo + 4 ≤ (s.callers t).toDo) ∨
      s.callers t = .joining ∧ s' = s.goesTo t .idle := by
  rw [resumes] at hstep
  cases hcaller : s.callers t with
  | idle => simp [hcaller] at hstep
  | joining =>
      simp only [hcaller] at hstep
      split_ifs at hstep
      exact .inr ⟨rfl, (Option.some.inj hstep).symm⟩
  | pushed | stopped | destroying =>
      simp only [hcaller] at hstep
      exact .inl ⟨_, (Option.some.inj hstep).symm, le_rfl⟩

theorem toDo_of_resume {F : Finset T} {t : T} (hF : Runs.IdleOutside .idle F s.callers)
    (hstep : s.step (.resume t) = some s') :
    s'.toDo F < s.toDo F ∧ Runs.IdleOutside .idle F s'.callers := by
  obtain ⟨caller, rfl, hless⟩ | ⟨hcaller, rfl⟩ := resumes_cases hstep
  · have ht : t ∈ F := hF.mem fun hidle => by simp [hidle, Caller.toDo] at hless
    have howed := Runs.owed_update Caller.toDo ht s.callers caller
    have hrank : (s.notified.goesTo t caller).rank ≤ s.rank + 3 := rank_notified
    simp only [toDo, goesTo, notified_callers] at hrank ⊢
    exact ⟨by omega, hF.update ht⟩
  · have ht : t ∈ F := hF.mem (by simp [hcaller])
    have howed := Runs.owed_update Caller.toDo ht s.callers .idle
    have hrank : (s.goesTo t .idle).rank = s.rank := rfl
    rw [hcaller] at howed
    simp only [toDo, goesTo, Caller.toDo] at howed hrank ⊢
    exact ⟨by omega, hF.update ht⟩

theorem toDo_of_own {F : Finset T} (hlock : s.Disciplined)
    (hF : Runs.IdleOutside .idle F s.callers) (hown : s.OwnStep a) (hstep : s.step a = some s') :
    s'.toDo F < s.toDo F ∧ Runs.IdleOutside .idle F s'.callers := by
  cases a with
  | worker =>
      have hworks := work_cases hstep
      have hless := rank_work hlock hworks
      rw [toDo, toDo, hworks.callers_eq hlock]
      exact ⟨Nat.add_lt_add_right hless _, hF⟩
  | resume t => exact toDo_of_resume hF hstep
  | pushToQueue | stopQueue | destroy | wakeWorker => cases hown

/-! ### At rest -/

/-- Nobody takes a step until somebody calls the queue. -/
def AtRest (s : TaskQueue α T) : Prop := ∀ a, s.OwnStep a → s.step a = none

/-- Every call has returned; and all tasks are processed, or the queue was stopped and the worker has
ended. -/
structure Completed (s : TaskQueue α T) : Prop where
  callers : ∀ t, s.callers t = .idle
  conserved : doneTasks s.trace ++ s.taskQueue = pushedTasks s.trace
  running : s.runWorkerThread = true → s.taskQueue = []
  stopped : s.runWorkerThread = false → s.pc = .finished

theorem blocked_or_finished (hlock : s.Disciplined) (hrest : s.AtRest) :
    s.pc = .wait .blocked ∨ s.pc = .finished := by
  have hnone : s.work = none := hrest .worker trivial
  rw [work] at hnone
  cases hpc : s.pc with
  | wait w =>
      cases w with
      | blocked => exact .inl rfl
      | _ => simp [hpc] at hnone
  | finished => exact .inr rfl
  | systemError => exact absurd hpc hlock.noError
  | _ => simp [hpc] at hnone

theorem callers_of_atRest (hlock : s.Disciplined) (hawake : s.Awake) (hrest : s.AtRest) (t : T) :
    s.callers t = .idle := by
  have hnone : s.resumes t = none := hrest (.resume t) trivial
  rw [resumes] at hnone
  cases hcaller : s.callers t with
  | idle => rfl
  | joining =>
      -- the worker has been told to end, so it is not asleep
      have hpc := (blocked_or_finished hlock hrest).resolve_left (hawake.joining t hcaller).2
      simp [hcaller, hpc] at hnone
  | _ => simp [hcaller] at hnone

theorem completed_of_atRest
    (h : Runs.Reachable TaskQueue.step (fun _ _ => True) (TaskQueue.init : TaskQueue α T) s)
    (hrest : s.AtRest) : s.Completed := by
  obtain ⟨hlock, hawake⟩ := disciplined_awake h
  have hcallers := callers_of_atRest hlock hawake hrest
  have hpc := blocked_or_finished hlock hrest
  have hidle : s.pc = .wait .blocked → s.taskQueue = [] ∧ s.runWorkerThread = true := fun hpc =>
    hawake.idle_of_blocked hpc fun t => by
      rw [hcallers t]
      rfl
  refine ⟨hcallers, ?_, fun hrun => ?_, fun hstop => ?_⟩
  · have hconserved := (inOrder_of_reachable h).conserved
    have hreturns : Returns s := returns_of_reachable h
    rw [Returns] at hreturns
    obtain hpc | hpc := hpc <;>
      simpa [← hreturns, hpc, WorkerPc.taken, WorkerPc.processed] using hconserved
  · refine (hidle (hpc.resolve_right fun hended => ?_)).1
    exact absurd ((started_of_reachable h).ended hended) (by simp [hrun])
  · refine hpc.resolve_left fun hblocked => ?_
    exact absurd (hidle hblocked).2 (by simp [hstop])

theorem frame_of_own (hlock : s.Disciplined) (hown : s.OwnStep a) (hstep : s.step a = some s') :
    pushedTasks s'.trace = pushedTasks s.trace ∧ s'.runWorkerThread = s.runWorkerThread := by
  cases a with
  | worker =>
      have hworks := work_cases hstep
      exact ⟨hworks.pushedTasks_eq hlock, hworks.runWorkerThread_eq hlock⟩
  | resume t =>
      obtain ⟨caller, rfl, -⟩ | ⟨-, rfl⟩ := resumes_cases hstep
      · simp [goesTo]
      · exact ⟨rfl, rfl⟩
  | pushToQueue | stopQueue | destroy | wakeWorker => cases hown

/-- **The queue gets done**: whatever the order of the steps, after finitely many of them every call
has returned and all pushed tasks are processed, in order, or the queue was stopped and the worker
has ended with the tasks that it had taken; and whenever nobody can take a step, that is so. -/
theorem gets_done
    (h : Runs.Reachable TaskQueue.step (fun _ _ => True) (TaskQueue.init : TaskQueue α T) s) :
    (s.AtRest → s.Completed) ∧
      Runs.Inevitably TaskQueue.step OwnStep (fun t => t.AtRest ∧ t.Completed ∧
        pushedTasks t.trace = pushedTasks s.trace ∧ t.runWorkerThread = s.runWorkerThread) s := by
  refine ⟨completed_of_atRest h, ?_⟩
  obtain ⟨F, hF⟩ := Runs.exists_idleOutside (started_of_reachable h).finite
  refine (Runs.inevitably_of_rank (P := AtRest) (fun t =>
    Runs.Reachable TaskQueue.step (fun _ _ => True) (TaskQueue.init : TaskQueue α T) t ∧
      Runs.IdleOutside .idle F t.callers ∧ pushedTasks t.trace = pushedTasks s.trace ∧
      t.runWorkerThread = s.runWorkerThread) (toDo F) ?_ ?_ ⟨h, hF, rfl, rfl⟩).mono ?_
  · intro t _ hnot
    simp only [AtRest, not_forall] at hnot
    obtain ⟨a, hown, hstep⟩ := hnot
    obtain ⟨t', ht'⟩ := Option.ne_none_iff_exists'.mp hstep
    exact ⟨a, t', hown, ht'⟩
  · rintro t a t' ⟨ht, hidle, hpushed, hrun⟩ - hown hstep
    have hlock := (disciplined_awake ht).1
    obtain ⟨hless, hidle'⟩ := toDo_of_own hlock hidle hown hstep
    obtain ⟨hpushed', hrun'⟩ := frame_of_own hlock hown hstep
    exact ⟨⟨.tail a ht trivial hstep, hidle', hpushed'.trans hpushed, hrun'.trans hrun⟩, hless⟩
  · rintro t ⟨hrest, ht, -, hpushed, hrun⟩
    exact ⟨hrest, completed_of_atRest ht hrest, hpushed, hrun⟩

/-- Two tasks, of which the first is processed when the queue is destroyed. -/
theorem gets_done_destroyed : ∃ s : TaskQueue Nat Bool, s.callers true = .destroying ∧
    s.pc = .processing 1 ∧ s.taskQueue = [2] ∧
    Runs.Inevitably TaskQueue.step OwnStep (fun t => t.Completed ∧ t.pc = .finished) s := by
  have hrun : ∃ s : TaskQueue Nat Bool, Runs.Reachable TaskQueue.step (fun _ _ => True)
      TaskQueue.init s ∧ s.callers true = .destroying ∧ s.pc = .processing 1 ∧ s.taskQueue = [2] ∧
      s.runWorkerThread = false :=
    Runs.exists_reachable ([.pushToQueue false 1, .resume false, .pushToQueue false 2] ++
      List.replicate 7 .worker ++ [.destroy true]) (by decide +kernel)
  obtain ⟨s, hs, hcaller, hpc, hqueue, hstop⟩ := hrun
  refine ⟨s, hcaller, hpc, hqueue, (gets_done hs).2.mono fun t ⟨_, hdone, _, hrun⟩ => ?_⟩
  exact ⟨hdone, hdone.stopped (hrun.trans hstop)⟩

end TaskQueue

end Shapeware.MqMessage
