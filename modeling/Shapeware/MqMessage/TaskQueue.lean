import Shapeware.CxxWait
import Shapeware.Library.Runs

/-!
# The task queue

`TaskQueue` passes the tasks that any thread pushes to a processing function, one after the other,
on a thread of its own. Callers hold the mutex for one critical section and notify the worker after
it. The worker keeps track of the mutex with a `std::unique_lock`, which throws when it is locked
twice or unlocked twice.
-/

namespace Shapeware.MqMessage

/-- Where a caller is: outside, between its critical section and `notify_all`, or in the join. -/
inductive Caller
  | idle
  | pushed (retval : Int)
  | stopped
  | destroying
  | joining
deriving DecidableEq

def Caller.owesNotify : Caller → Bool
  | .pushed _ | .stopped | .destroying => true
  | _ => false

inductive WorkerPc (α : Type)
  | outer
  | lock
  | wait (w : Wait)
  | inner
  | take
  | unlockTask (task : α)
  | process (task : α)
  | processing (task : α)
  | relock
  | unlockEmpty
  | finished
  | systemError
deriving DecidableEq

inductive Event (α : Type)
  | pushed (task : α)
  | stopped
  | taken (task : α)
  | started (task : α)
  | done (task : α)
deriving DecidableEq

structure TaskQueue (α T : Type) where
  taskQueue : List α
  taskPushed : Bool
  runWorkerThread : Bool
  pc : WorkerPc α
  ownsLock : Bool
  callers : T → Caller
  trace : List (Event α)

inductive Action (α T : Type)
  | pushToQueue (t : T) (task : α)
  | stopQueue (t : T)
  | destroy (t : T)
  /-- A caller notifies the worker, or returns from the join. -/
  | resume (t : T)
  | worker
  /-- The worker wakes up without a notification. -/
  | wakeWorker
deriving DecidableEq

namespace TaskQueue

variable {α T : Type}

def init : TaskQueue α T :=
  { taskQueue := [], taskPushed := false, runWorkerThread := true, pc := .outer, ownsLock := false
    callers := fun _ => .idle, trace := [] }

/-! ### The worker -/

def lock (s : TaskQueue α T) (pc : WorkerPc α) : TaskQueue α T :=
  if s.ownsLock then { s with pc := .systemError } else { s with pc, ownsLock := true }

def unlock (s : TaskQueue α T) (pc : WorkerPc α) : TaskQueue α T :=
  if s.ownsLock then { s with pc, ownsLock := false } else { s with pc := .systemError }

/-- One step of `worker`. -/
def work (s : TaskQueue α T) : Option (TaskQueue α T) :=
  match s.pc with
  | .outer =>
    some <| if s.runWorkerThread then { s with pc := .lock }
      else { s with pc := .finished, ownsLock := false }
  | .lock => some (s.lock (.wait .test))
  | .wait .test =>
    some <| if s.taskPushed then { s with pc := .inner, taskPushed := false }
      else { s with pc := .wait .block }
  | .wait .block => some { s with pc := .wait .blocked, ownsLock := false }
  | .wait .blocked => none
  | .wait .relock => some { s with pc := .wait .test, ownsLock := true }
  | .inner => some { s with pc := if s.runWorkerThread then .take else .outer }
  | .take =>
    some <| match s.taskQueue with
    | task :: rest =>
      { s with pc := .unlockTask task, taskQueue := rest, trace := s.trace ++ [.taken task] }
    | [] => { s with pc := .unlockEmpty }
  | .unlockTask task => some (s.unlock (.process task))
  | .process task => some { s with pc := .processing task, trace := s.trace ++ [.started task] }
  | .processing task => some { s with pc := .relock, trace := s.trace ++ [.done task] }
  | .relock => some (s.lock .inner)
  | .unlockEmpty => some (s.unlock .outer)
  | .finished | .systemError => none

/-- `m_conditionVariable.notify_all()`. -/
def notified (s : TaskQueue α T) : TaskQueue α T :=
  match s.pc with
  | .wait w => { s with pc := .wait w.notified }
  | _ => s

/-! ### The callers -/

variable [DecidableEq T]

/-- Thread `t` can enter a critical section under `m_taskQueueMutex`. -/
def CanEnter (s : TaskQueue α T) (t : T) : Prop := s.callers t = .idle ∧ s.ownsLock = false

instance (s : TaskQueue α T) (t : T) : Decidable (s.CanEnter t) :=
  inferInstanceAs (Decidable (_ ∧ _))

def goesTo (s : TaskQueue α T) (t : T) (caller : Caller) : TaskQueue α T :=
  { s with callers := Function.update s.callers t caller }

/-- The critical section of `pushToQueue`. -/
def push (s : TaskQueue α T) (task : α) : TaskQueue α T :=
  { s with taskQueue := s.taskQueue ++ [task], taskPushed := true, trace := s.trace ++ [.pushed task] }

/-- The critical section of `stopQueue` and of the destructor. -/
def stop (s : TaskQueue α T) : TaskQueue α T :=
  { s with runWorkerThread := false, taskPushed := true, trace := s.trace ++ [.stopped] }

def resumes (s : TaskQueue α T) (t : T) : Option (TaskQueue α T) :=
  match s.callers t with
  | .pushed _ | .stopped => some (s.notified.goesTo t .idle)
  | .destroying => some (s.notified.goesTo t .joining)
  | .joining => if s.pc matches .finished then some (s.goesTo t .idle) else none
  | .idle => none

/-- `static_cast<int>` of the size of the queue. -/
def size (s : TaskQueue α T) : Int := (s.taskQueue.length : Int).bmod (2 ^ 32)

def step (s : TaskQueue α T) : Action α T → Option (TaskQueue α T)
  | .pushToQueue t task =>
    if s.CanEnter t then some ((s.push task).goesTo t (.pushed (s.push task).size)) else none
  | .stopQueue t => if s.CanEnter t then some (s.stop.goesTo t .stopped) else none
  | .destroy t => if s.CanEnter t then some (s.stop.goesTo t .destroying) else none
  | .resume t => s.resumes t
  | .worker => s.work
  | .wakeWorker => some s.notified

/-! ### All that a step can do -/

inductive Works (s : TaskQueue α T) : TaskQueue α T → Prop
  | goesRound (hpc : s.pc = .outer) (hrun : s.runWorkerThread = true) : Works s { s with pc := .lock }
  | finishes (hpc : s.pc = .outer) (hrun : s.runWorkerThread = false) :
      Works s { s with pc := .finished, ownsLock := false }
  | locks (hpc : s.pc = .lock) : Works s (s.lock (.wait .test))
  | passes (hpc : s.pc = .wait .test) (hpushed : s.taskPushed = true) :
      Works s { s with pc := .inner, taskPushed := false }
  | blocks (hpc : s.pc = .wait .test) (hpushed : s.taskPushed = false) :
      Works s { s with pc := .wait .block }
  | sleeps (hpc : s.pc = .wait .block) : Works s { s with pc := .wait .blocked, ownsLock := false }
  | retests (hpc : s.pc = .wait .relock) : Works s { s with pc := .wait .test, ownsLock := true }
  | looks (hpc : s.pc = .inner) (hrun : s.runWorkerThread = true) : Works s { s with pc := .take }
  | leaves (hpc : s.pc = .inner) (hrun : s.runWorkerThread = false) :
      Works s { s with pc := .outer }
  | takes {task : α} {rest : List α} (hpc : s.pc = .take) (hqueue : s.taskQueue = task :: rest) :
      Works s
        { s with pc := .unlockTask task, taskQueue := rest, trace := s.trace ++ [.taken task] }
  | drained (hpc : s.pc = .take) (hqueue : s.taskQueue = []) : Works s { s with pc := .unlockEmpty }
  | unlocksTask {task : α} (hpc : s.pc = .unlockTask task) : Works s (s.unlock (.process task))
  | starts {task : α} (hpc : s.pc = .process task) :
      Works s { s with pc := .processing task, trace := s.trace ++ [.started task] }
  | ends {task : α} (hpc : s.pc = .processing task) :
      Works s { s with pc := .relock, trace := s.trace ++ [.done task] }
  | relocks (hpc : s.pc = .relock) : Works s (s.lock .inner)
  | unlocksEmpty (hpc : s.pc = .unlockEmpty) : Works s (s.unlock .outer)

omit [DecidableEq T] in
theorem work_cases {s s' : TaskQueue α T} (h : s.work = some s') : s.Works s' := by
  rw [work] at h
  cases hpc : s.pc with
  | outer =>
      simp only [hpc, Option.some.injEq] at h
      split_ifs at h with hrun <;> subst h
      · exact .goesRound hpc hrun
      · exact .finishes hpc (eq_false_of_ne_true hrun)
  | lock =>
      simp only [hpc, Option.some.injEq] at h
      exact h ▸ .locks hpc
  | wait w =>
      cases w with
      | test =>
          simp only [hpc, Option.some.injEq] at h
          split_ifs at h with hpushed <;> subst h
          · exact .passes hpc hpushed
          · exact .blocks hpc (eq_false_of_ne_true hpushed)
      | block =>
          simp only [hpc, Option.some.injEq] at h
          exact h ▸ .sleeps hpc
      | blocked => simp [hpc] at h
      | relock =>
          simp only [hpc, Option.some.injEq] at h
          exact h ▸ .retests hpc
  | inner =>
      simp only [hpc, Option.some.injEq] at h
      split_ifs at h with hrun <;> subst h
      · exact .looks hpc hrun
      · exact .leaves hpc (eq_false_of_ne_true hrun)
  | take =>
      simp only [hpc, Option.some.injEq] at h
      split at h <;> subst h
      · exact .takes hpc ‹_›
      · exact .drained hpc ‹_›
  | unlockTask task =>
      simp only [hpc, Option.some.injEq] at h
      exact h ▸ .unlocksTask hpc
  | process task =>
      simp only [hpc, Option.some.injEq] at h
      exact h ▸ .starts hpc
  | processing task =>
      simp only [hpc, Option.some.injEq] at h
      exact h ▸ .ends hpc
  | relock =>
      simp only [hpc, Option.some.injEq] at h
      exact h ▸ .relocks hpc
  | unlockEmpty =>
      simp only [hpc, Option.some.injEq] at h
      exact h ▸ .unlocksEmpty hpc
  | finished | systemError => simp [hpc] at h

inductive Steps (s : TaskQueue α T) : TaskQueue α T → Prop
  | push {t : T} {task : α} {retval : Int} (henter : s.CanEnter t) :
      Steps s ((s.push task).goesTo t (.pushed retval))
  | stop {t : T} {caller : Caller} (henter : s.CanEnter t) (howes : caller.owesNotify = true) :
      Steps s (s.stop.goesTo t caller)
  | notify {t : T} {caller : Caller}
      (hcaller : caller = .idle ∨ caller = .joining ∧ s.callers t = .destroying) :
      Steps s (s.notified.goesTo t caller)
  | joined {t : T} (hcaller : s.callers t = .joining) : Steps s (s.goesTo t .idle)
  | work {s' : TaskQueue α T} (hworks : s.Works s') : Steps s s'
  | wake : Steps s s.notified

theorem step_cases {s s' : TaskQueue α T} {a : Action α T} (h : s.step a = some s') :
    s.Steps s' := by
  cases a with
  | pushToQueue t task =>
      rw [step] at h
      split_ifs at h with henter
      cases h
      exact .push henter
  | stopQueue t =>
      rw [step] at h
      split_ifs at h with henter
      cases h
      exact .stop henter rfl
  | destroy t =>
      rw [step] at h
      split_ifs at h with henter
      cases h
      exact .stop henter rfl
  | resume t =>
      rw [step, resumes] at h
      cases hcaller : s.callers t with
      | idle => simp [hcaller] at h
      | pushed | stopped =>
          simp only [hcaller, Option.some.injEq] at h
          exact h ▸ .notify (.inl rfl)
      | destroying =>
          simp only [hcaller, Option.some.injEq] at h
          exact h ▸ .notify (.inr ⟨rfl, hcaller⟩)
      | joining =>
          simp only [hcaller] at h
          split_ifs at h
          cases h
          exact .joined hcaller
  | worker => exact .work (work_cases h)
  | wakeWorker =>
      cases h
      exact .wake

end TaskQueue

end Shapeware.MqMessage
