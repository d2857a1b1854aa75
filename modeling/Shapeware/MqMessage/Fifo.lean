import Shapeware.Library.Alternation
import Shapeware.Library.History
import Shapeware.MqMessage.Wakeup

/-!
# The task queue is a FIFO

The tasks passed to the processing function, the one in the worker's hands and those in the queue
are at any time the tasks that were pushed, in the order of their critical sections.
-/

namespace Shapeware.MqMessage

open Alternation

variable {α T : Type}

def pushedTasks (trace : List (Event α)) : List α :=
  trace.filterMap fun
    | .pushed task => some task
    | _ => none

def startedTasks (trace : List (Event α)) : List α :=
  trace.filterMap fun
    | .started task => some task
    | _ => none

def doneTasks (trace : List (Event α)) : List α :=
  trace.filterMap fun
    | .done task => some task
    | _ => none

inductive Phase
  | start
  | finish
deriving DecidableEq

def Event.phase : Event α → Option Phase
  | .started _ => some .start
  | .done _ => some .finish
  | _ => none

def phases (trace : List (Event α)) : List Phase := trace.filterMap Event.phase

@[simp] theorem startedTasks_append (trace : List (Event α)) (e : Event α) :
    startedTasks (trace ++ [e]) = startedTasks trace ++ startedTasks [e] := List.filterMap_append

@[simp] theorem pushedTasks_append (trace : List (Event α)) (e : Event α) :
    pushedTasks (trace ++ [e]) = pushedTasks trace ++ pushedTasks [e] := List.filterMap_append

@[simp] theorem doneTasks_append (trace : List (Event α)) (e : Event α) :
    doneTasks (trace ++ [e]) = doneTasks trace ++ doneTasks [e] := List.filterMap_append

@[simp] theorem phases_append (trace : List (Event α)) (e : Event α) :
    phases (trace ++ [e]) = phases trace ++ e.phase.toList := by
  cases h : e.phase <;> simp [phases, List.filterMap_append, h]

/-- The task taken from the queue but not yet passed. -/
def WorkerPc.taken : WorkerPc α → List α
  | .unlockTask task | .process task => [task]
  | _ => []

/-- The task passed to the processing function that has not returned yet. -/
def WorkerPc.processed : WorkerPc α → List α
  | .processing task => [task]
  | _ => []

def WorkerPc.phase : WorkerPc α → Phase
  | .processing _ => .finish
  | _ => .start

namespace TaskQueue

variable {s s' : TaskQueue α T}

structure InOrder (s : TaskQueue α T) : Prop where
  conserved : startedTasks s.trace ++ (s.pc.taken ++ s.taskQueue) = pushedTasks s.trace
  due : Due .start .finish (phases s.trace) s.pc.phase
  stopped : .stopped ∈ s.trace → s.runWorkerThread = false
  takes : ∀ before task, before ++ [.taken task] <+: s.trace → .stopped ∉ before

namespace InOrder

theorem quiet (h : s.InOrder) (hqueue : s'.taskQueue = s.taskQueue) (htrace : s'.trace = s.trace)
    (htaken : s'.pc.taken = s.pc.taken) (hphase : s'.pc.phase = s.pc.phase)
    (hrun : s'.runWorkerThread = s.runWorkerThread) : s'.InOrder := by
  refine ⟨?_, ?_, ?_, ?_⟩
  · rw [hqueue, htrace, htaken]
    exact h.conserved
  · rw [htrace, hphase]
    exact h.due
  · rw [htrace, hrun]
    exact h.stopped
  · rw [htrace]
    exact h.takes

theorem takes_append {trace : List (Event α)} {e : Event α}
    (h : ∀ before task, before ++ [.taken task] <+: trace → .stopped ∉ before)
    (he : ∀ task, e = .taken task → .stopped ∉ trace) :
    ∀ before task, before ++ [.taken task] <+: trace ++ [e] → .stopped ∉ before := by
  have halways : History.Always (fun before e => ∀ task, e = .taken task → .stopped ∉ before)
      (trace ++ [e]) :=
    History.always_append_singleton.mpr
      ⟨fun before _ hbefore task he => h before task (he ▸ hbefore), he⟩
  exact fun before task hbefore => halways before _ hbefore task rfl

theorem notified (h : s.InOrder) : s.notified.InOrder := by
  unfold TaskQueue.notified
  split
  case h_1 w hpc => exact h.quiet rfl rfl (by rw [hpc]; rfl) (by rw [hpc]; rfl) rfl
  case h_2 => exact h

theorem work (h : s.InOrder) (hlock : s.Disciplined) (hworks : s.Works s') : s'.InOrder := by
  cases hworks with
  | goesRound hpc | finishes hpc | passes hpc | blocks hpc | sleeps hpc | retests hpc | looks hpc
  | leaves hpc | drained hpc =>
      exact h.quiet rfl rfl (by rw [hpc]; rfl) (by rw [hpc]; rfl) rfl
  | locks hpc | relocks hpc =>
      rw [hlock.lock_eq (by simp [hpc]) (by rw [hpc]; rfl)]
      exact h.quiet rfl rfl (by rw [hpc]; rfl) (by rw [hpc]; rfl) rfl
  | unlocksTask hpc | unlocksEmpty hpc =>
      rw [hlock.unlock_eq (by simp [hpc]) (by rw [hpc]; rfl)]
      exact h.quiet rfl rfl (by rw [hpc]; rfl) (by rw [hpc]; rfl) rfl
  | @takes task rest hpc hqueue =>
      have hconserved := h.conserved
      have hrun := hlock.run (.inl hpc)
      rw [hpc, hqueue] at hconserved
      refine ⟨?_, ?_, fun hstopped => ?_, takes_append h.takes fun _ _ hstopped => ?_⟩
      · simpa [startedTasks, pushedTasks, WorkerPc.taken] using hconserved
      · simpa [Event.phase, hpc, WorkerPc.phase] using h.due
      · exact absurd (hrun.symm.trans (h.stopped (by simpa using hstopped))) (by simp)
      · -- a stopped queue is seen by the worker before it takes a task
        exact absurd (hrun.symm.trans (h.stopped hstopped)) (by simp)
  | @starts task hpc =>
      have hconserved := h.conserved
      have hdue := h.due
      rw [hpc] at hconserved hdue
      refine ⟨?_, ?_, fun hstopped => h.stopped (by simpa using hstopped),
        takes_append h.takes (by simp)⟩
      · simpa [startedTasks, pushedTasks, WorkerPc.taken] using hconserved
      · simpa [Event.phase, WorkerPc.phase] using hdue.first
  | @ends task hpc =>
      have hconserved := h.conserved
      have hdue := h.due
      rw [hpc] at hconserved hdue
      refine ⟨?_, ?_, fun hstopped => h.stopped (by simpa using hstopped),
        takes_append h.takes (by simp)⟩
      · simpa [startedTasks, pushedTasks, WorkerPc.taken] using hconserved
      · simpa [Event.phase, WorkerPc.phase] using hdue.second

theorem step [DecidableEq T] (h : s.InOrder) (hlock : s.Disciplined) (hsteps : s.Steps s') :
    s'.InOrder := by
  cases hsteps with
  | push =>
      refine ⟨?_, ?_, fun hstopped => h.stopped (by simpa [push, goesTo] using hstopped),
        takes_append h.takes (by simp)⟩
      · change startedTasks (s.trace ++ _) ++ (s.pc.taken ++ (s.taskQueue ++ _)) =
          pushedTasks (s.trace ++ _)
        rw [pushedTasks_append, ← h.conserved]
        simp [startedTasks, pushedTasks]
      · simpa [push, goesTo, Event.phase] using h.due
  | stop =>
      refine ⟨?_, ?_, fun _ => rfl, takes_append h.takes (by simp)⟩
      · simpa [TaskQueue.stop, goesTo, startedTasks, pushedTasks] using h.conserved
      · simpa [TaskQueue.stop, goesTo, Event.phase] using h.due
  | notify => exact h.notified.quiet rfl rfl rfl rfl rfl
  | joined => exact h.quiet rfl rfl rfl rfl rfl
  | work hworks => exact h.work hlock hworks
  | wake => exact h.notified

end InOrder

/-- The processing function has returned from all tasks that it was passed but the last. -/
def Returns (s : TaskQueue α T) : Prop :=
  doneTasks s.trace ++ s.pc.processed = startedTasks s.trace

namespace Returns

theorem quiet (h : s.Returns) (htrace : s'.trace = s.trace)
    (hpc : s'.pc.processed = s.pc.processed) : s'.Returns := by
  rw [Returns, htrace, hpc]
  exact h

theorem notified (h : s.Returns) : s.notified.Returns := by
  unfold TaskQueue.notified
  split
  case h_1 w hpc => exact h.quiet rfl (by rw [hpc]; rfl)
  case h_2 => exact h

theorem work (h : s.Returns) (hlock : s.Disciplined) (hworks : s.Works s') : s'.Returns := by
  cases hworks with
  | goesRound hpc | finishes hpc | passes hpc | blocks hpc | sleeps hpc | retests hpc | looks hpc
  | leaves hpc | drained hpc => exact h.quiet rfl (by rw [hpc]; rfl)
  | locks hpc | relocks hpc =>
      rw [hlock.lock_eq (by simp [hpc]) (by rw [hpc]; rfl)]
      exact h.quiet rfl (by rw [hpc]; rfl)
  | unlocksTask hpc | unlocksEmpty hpc =>
      rw [hlock.unlock_eq (by simp [hpc]) (by rw [hpc]; rfl)]
      exact h.quiet rfl (by rw [hpc]; rfl)
  | takes hpc | starts hpc | ends hpc =>
      rw [Returns, hpc] at h
      simpa [Returns, doneTasks, startedTasks, WorkerPc.processed] using h

theorem step [DecidableEq T] (h : s.Returns) (hlock : s.Disciplined) (hsteps : s.Steps s') :
    s'.Returns := by
  cases hsteps with
  | push | stop =>
      simpa [Returns, push, TaskQueue.stop, goesTo, doneTasks, startedTasks] using h
  | notify => exact h.notified.quiet rfl rfl
  | joined => exact h.quiet rfl rfl
  | work hworks => exact h.work hlock hworks
  | wake => exact h.notified

end Returns

theorem Works.trace_cases (hlock : s.Disciplined) (hworks : s.Works s') :
    s'.trace = s.trace ∨ ∃ e task, s'.trace = s.trace ++ [e] ∧
      (e = .taken task ∨ e = .started task ∨ e = .done task ∧ s.pc = .processing task) := by
  cases hworks with
  | locks hpc | relocks hpc =>
      rw [hlock.lock_eq (by simp [hpc]) (by rw [hpc]; rfl)]
      exact .inl rfl
  | unlocksTask hpc | unlocksEmpty hpc =>
      rw [hlock.unlock_eq (by simp [hpc]) (by rw [hpc]; rfl)]
      exact .inl rfl
  | @takes task => exact .inr ⟨_, task, rfl, .inl rfl⟩
  | @starts task => exact .inr ⟨_, task, rfl, .inr (.inl rfl)⟩
  | @ends task hpc => exact .inr ⟨_, task, rfl, .inr (.inr ⟨rfl, hpc⟩)⟩
  | _ => exact .inl rfl

theorem Works.pushedTasks_eq (hlock : s.Disciplined) (hworks : s.Works s') :
    pushedTasks s'.trace = pushedTasks s.trace := by
  obtain heq | ⟨e, task, heq, rfl | rfl | ⟨rfl, -⟩⟩ := hworks.trace_cases hlock <;>
    simp [heq, pushedTasks]

/-- The worker returns from the processing function by a step of its own. -/
theorem Works.doneTasks_eq (hlock : s.Disciplined) (hidle : ∀ task, s.pc ≠ .processing task)
    (hworks : s.Works s') : doneTasks s'.trace = doneTasks s.trace := by
  obtain heq | ⟨e, task, heq, rfl | rfl | ⟨rfl, hpc⟩⟩ := hworks.trace_cases hlock
  · rw [heq]
  · simp [heq, doneTasks]
  · simp [heq, doneTasks]
  · exact absurd hpc (hidle task)

theorem doneTasks_of_processing {task : α} (hpc : s.pc = .processing task)
    (hwork : s.work = some s') : doneTasks s'.trace = doneTasks s.trace ++ [task] := by
  rw [work, hpc] at hwork
  cases hwork
  exact doneTasks_append _ _

variable [DecidableEq T]

theorem inOrder_of_reachable {allowed : TaskQueue α T → Action α T → Prop}
    (h : Runs.Reachable step allowed (init : TaskQueue α T) s) : s.InOrder := by
  apply h.invariant_of_reachable InOrder
  · exact ⟨rfl, due_nil, by simp [init], by simp [init]⟩
  · intro s a s' hreachable hinv _ hstep
    exact hinv.step (disciplined_awake hreachable).1 (step_cases hstep)

theorem returns_of_reachable {allowed : TaskQueue α T → Action α T → Prop}
    (h : Runs.Reachable step allowed (init : TaskQueue α T) s) : s.Returns := by
  apply h.invariant_of_reachable Returns
  · rfl
  · intro s a s' hreachable hinv _ hstep
    exact hinv.step (disciplined_awake hreachable).1 (step_cases hstep)

/-- **FIFO.** What was passed, then what the worker has taken, then the queue is what was pushed, so
nothing is lost or passed twice; one task is processed at a time; and once the queue is stopped no
further task is taken. -/
theorem fifo (h : Runs.Reachable step (fun _ _ => True) (init : TaskQueue α T) s) :
    startedTasks s.trace ++ (s.pc.taken ++ s.taskQueue) = pushedTasks s.trace ∧
    Alternates .start .finish (phases s.trace) ∧
    ∀ before task, before ++ [.taken task] <+: s.trace → .stopped ∉ before := by
  have hinv : s.InOrder := inOrder_of_reachable h
  exact ⟨hinv.conserved, hinv.due.alternates, hinv.takes⟩

/-- Three tasks, of which one has been processed and one is taken when the queue is stopped. -/
theorem fifo_stopped : ∃ s : TaskQueue Nat Bool,
    startedTasks s.trace = [1] ∧ s.pc.taken = [2] ∧ s.taskQueue = [3] ∧ .stopped ∈ s.trace ∧
      startedTasks s.trace ++ (s.pc.taken ++ s.taskQueue) = pushedTasks s.trace := by
  have hrun : ∃ s : TaskQueue Nat Bool, Runs.Reachable step (fun _ _ => True) init s ∧
      startedTasks s.trace = [1] ∧ s.pc.taken = [2] ∧ s.taskQueue = [3] ∧ .stopped ∈ s.trace :=
    Runs.exists_reachable (List.flatten [[.pushToQueue false 1, .resume false,
      .pushToQueue true 2], List.replicate 8 .worker, [.resume true, .pushToQueue false 3],
      List.replicate 4 .worker, [.stopQueue true]]) (by decide +kernel)
  obtain ⟨s, hs, hstarted, htaken, hqueue, hstopped⟩ := hrun
  exact ⟨s, hstarted, htaken, hqueue, hstopped, (fifo hs).1⟩

end TaskQueue

end Shapeware.MqMessage
