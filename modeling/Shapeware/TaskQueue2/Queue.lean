import Shapeware.Library.Runs

/-!
# The task queue with retry

The worker copies the head of the queue, processes the copy without the mutex and removes the head
when the processing function has returned `true`; otherwise the task stays for the next round. Any
thread may push, ask for the size, stop the queue or take the head away with `pop`. A task is
entered under the number of its push, so that two equal tasks are told apart. Every position of
the worker settles whether it holds the mutex; the critical sections of the callers are one step.
-/

namespace Shapeware.TaskQueue2

/-- Where a caller is; `reported` is the return from `pushToQueue` or `size`. -/
inductive Caller
  | idle
  | pushed (retval : Int)
  | reported (retval : Int)
  | stopped
  | joining
deriving DecidableEq

structure Entry (α : Type) where
  number : Nat
  task : α
deriving DecidableEq

inductive WorkerPc (α : Type)
  | outer
  | lock
  | wait
  | blocked
  | reacquire
  | look
  | unlockTask (e : Entry α)
  | process (e : Entry α)
  | processing (e : Entry α)
  | relock (e : Entry α) (processed : Bool)
  | remove (e : Entry α) (processed : Bool)
  | unlock
  | finished
deriving DecidableEq

def WorkerPc.ownsLock {α : Type} : WorkerPc α → Bool
  | .wait | .look | .unlockTask _ | .remove _ _ | .unlock => true
  | _ => false

inductive Event (α : Type)
  | pushed (e : Entry α)
  | started (e : Entry α)
  | done (e : Entry α) (processed : Bool)
  /-- The worker's `m_taskQueue.pop()`. -/
  | removed (e : Entry α)
  /-- The return value of `pop`. -/
  | popped (e : Entry α)
deriving DecidableEq

structure TaskQueue (α T : Type) where
  taskQueue : List (Entry α)
  runWorkerThread : Bool
  joinable : Bool
  pc : WorkerPc α
  callers : T → Caller
  /-- `front` or `pop` was applied to an empty `std::queue`; what follows is not defined. -/
  undefined : Bool
  trace : List (Event α)

inductive Action (α T : Type)
  | pushToQueue (t : T) (task : α)
  | size (t : T)
  | pop (t : T)
  | stopQueue (t : T)
  /-- A caller notifies the worker, or returns from the join. -/
  | resume (t : T)
  | worker
  /-- The processing function returns. -/
  | processed (processed : Bool)
  /-- The wait ends by its timeout or without a reason. -/
  | wakeWorker
deriving DecidableEq

def pushedEntries {α : Type} (trace : List (Event α)) : List (Entry α) :=
  trace.filterMap fun
    | .pushed e => some e
    | _ => none

namespace TaskQueue

variable {α T : Type}

def init : TaskQueue α T :=
  { taskQueue := [], runWorkerThread := true, joinable := true, pc := .outer
    callers := fun _ => .idle, undefined := false, trace := [] }

/-! ### The worker -/

/-- One step of `worker`, outside of the wait and of the processing function. -/
def work (s : TaskQueue α T) : Option (TaskQueue α T) :=
  match s.pc with
  | .outer => some { s with pc := if s.runWorkerThread then .lock else .finished }
  | .lock => some { s with pc := .wait }
  | .wait => some { s with pc := .blocked }
  | .reacquire => some { s with pc := .look }
  | .look =>
    some <| match s.taskQueue with
    | e :: _ => { s with pc := .unlockTask e }
    | [] => { s with pc := .unlock }
  | .unlockTask e => some { s with pc := .process e }
  | .process e => some { s with pc := .processing e, trace := s.trace ++ [.started e] }
  | .relock e processed => some { s with pc := .remove e processed }
  | .remove _ processed =>
    some <| if processed then
      match s.taskQueue with
      | e :: rest => { s with pc := .unlock, taskQueue := rest, trace := s.trace ++ [.removed e] }
      | [] => { s with undefined := true }
    else { s with pc := .unlock }
  | .unlock => some { s with pc := .outer }
  | .blocked | .processing _ | .finished => none

/-- The end of `wait_for`: a notification, the timeout, or neither. -/
def notified (s : TaskQueue α T) : TaskQueue α T :=
  match s.pc with
  | .blocked => { s with pc := .reacquire }
  | _ => s

def returns (s : TaskQueue α T) (processed : Bool) : Option (TaskQueue α T) :=
  match s.pc with
  | .processing e =>
    some { s with pc := .relock e processed, trace := s.trace ++ [.done e processed] }
  | _ => none

/-! ### The callers -/

variable [DecidableEq T]

/-- Thread `t` can enter a critical section under `m_taskQueueMutex`. -/
def CanEnter (s : TaskQueue α T) (t : T) : Prop :=
  s.pc.ownsLock = false ∧ (s.callers t matches .idle | .reported _) = true

instance (s : TaskQueue α T) (t : T) : Decidable (s.CanEnter t) :=
  inferInstanceAs (Decidable (_ ∧ _))

def goesTo (s : TaskQueue α T) (t : T) (caller : Caller) : TaskQueue α T :=
  { s with callers := Function.update s.callers t caller }

/-- The critical section of `pushToQueue`. -/
def push (s : TaskQueue α T) (task : α) : TaskQueue α T :=
  let e := ⟨(pushedEntries s.trace).length, task⟩
  { s with taskQueue := s.taskQueue ++ [e], trace := s.trace ++ [.pushed e] }

/-- `pop` does not ask whether there is a task. -/
def pop (s : TaskQueue α T) : TaskQueue α T :=
  match s.taskQueue with
  | e :: rest => { s with taskQueue := rest, trace := s.trace ++ [.popped e] }
  | [] => { s with undefined := true }

def resumes (s : TaskQueue α T) (t : T) : Option (TaskQueue α T) :=
  match s.callers t with
  | .pushed retval => some (s.notified.goesTo t (.reported retval))
  | .stopped => some (s.notified.goesTo t (if s.joinable then .joining else .idle))
  | .joining =>
    if s.pc matches .finished then some { s.goesTo t .idle with joinable := false } else none
  | .idle | .reported _ => none

def next (s : TaskQueue α T) : Action α T → Option (TaskQueue α T)
  | .pushToQueue t task =>
    if s.CanEnter t then
      some ((s.push task).goesTo t
        (.pushed (((s.push task).taskQueue.length : Int).bmod (2 ^ 32))))
    else none
  | .size t =>
    if s.CanEnter t then
      some (s.goesTo t (.reported ((s.taskQueue.length % 2 ^ 64 : Nat) : Int)))
    else none
  | .pop t => if s.CanEnter t then some (s.pop.goesTo t .idle) else none
  | .stopQueue t =>
    if s.CanEnter t then some ({ s with runWorkerThread := false }.goesTo t .stopped) else none
  | .resume t => s.resumes t
  | .worker => s.work
  | .processed processed => s.returns processed
  | .wakeWorker => some s.notified

def step (s : TaskQueue α T) (a : Action α T) : Option (TaskQueue α T) :=
  if s.undefined then none else s.next a

/-- `pop` is only called when `pushToQueue` or `size` has just reported a queue that is not empty. -/
def Reported (s : TaskQueue α T) : Action α T → Prop
  | .pop t => ∃ n, s.callers t = .reported n ∧ n ≠ 0
  | _ => True

instance (s : TaskQueue α T) (a : Action α T) : Decidable (s.Reported a) :=
  match a with
  | .pop t =>
    match h : s.callers t with
    | .reported n =>
      decidable_of_iff (n ≠ 0) (by simp [Reported, h])
    | .idle | .pushed _ | .stopped | .joining => isFalse (by simp [Reported, h])
  | .pushToQueue _ _ | .size _ | .stopQueue _ | .resume _ | .worker | .processed _ | .wakeWorker =>
    isTrue trivial

/-! ### All that a step can do -/

inductive Works (s : TaskQueue α T) : TaskQueue α T → Prop
  | goesRound (hpc : s.pc = .outer) (hrun : s.runWorkerThread = true) : Works s { s with pc := .lock }
  | finishes (hpc : s.pc = .outer) (hrun : s.runWorkerThread = false) :
      Works s { s with pc := .finished }
  | locks (hpc : s.pc = .lock) : Works s { s with pc := .wait }
  | sleeps (hpc : s.pc = .wait) : Works s { s with pc := .blocked }
  | reacquires (hpc : s.pc = .reacquire) : Works s { s with pc := .look }
  | copies {e : Entry α} {rest : List (Entry α)} (hpc : s.pc = .look)
      (hqueue : s.taskQueue = e :: rest) : Works s { s with pc := .unlockTask e }
  | drained (hpc : s.pc = .look) (hqueue : s.taskQueue = []) : Works s { s with pc := .unlock }
  | unlocksTask {e : Entry α} (hpc : s.pc = .unlockTask e) : Works s { s with pc := .process e }
  | starts {e : Entry α} (hpc : s.pc = .process e) :
      Works s { s with pc := .processing e, trace := s.trace ++ [.started e] }
  | relocks {e : Entry α} {processed : Bool} (hpc : s.pc = .relock e processed) :
      Works s { s with pc := .remove e processed }
  | removes {e e' : Entry α} {rest : List (Entry α)} (hpc : s.pc = .remove e true)
      (hqueue : s.taskQueue = e' :: rest) :
      Works s { s with pc := .unlock, taskQueue := rest, trace := s.trace ++ [.removed e'] }
  | underflows {e : Entry α} (hpc : s.pc = .remove e true) (hqueue : s.taskQueue = []) :
      Works s { s with undefined := true }
  | keeps {e : Entry α} (hpc : s.pc = .remove e false) : Works s { s with pc := .unlock }
  | unlocks (hpc : s.pc = .unlock) : Works s { s with pc := .outer }

omit [DecidableEq T] in
theorem work_cases {s s' : TaskQueue α T} (h : s.work = some s') : s.Works s' := by
  rw [work] at h
  cases hpc : s.pc with
  | outer =>
      simp only [hpc, Option.some.injEq] at h
      split_ifs at h with hrun <;> subst h
      · exact .goesRound hpc hrun
      · exact .finishes hpc (eq_false_of_ne_true hrun)
  | lock =>
      simp only [hpc, Option.some.injEq] at h
      exact h ▸ .locks hpc
  | wait =>
      simp only [hpc, Option.some.injEq] at h
      exact h ▸ .sleeps hpc
  | reacquire =>
      simp only [hpc, Option.some.injEq] at h
      exact h ▸ .reacquires hpc
  | look =>
      simp only [hpc, Option.some.injEq] at h
      split at h <;> subst h
      · exact .copies hpc ‹_›
      · exact .drained hpc ‹_›
  | unlockTask e =>
      simp only [hpc, Option.some.injEq] at h
      exact h ▸ .unlocksTask hpc
  | process e =>
      simp only [hpc, Option.some.injEq] at h
      exact h ▸ .starts hpc
  | relock e processed =>
      simp only [hpc, Option.some.injEq] at h
      exact h ▸ .relocks hpc
  | remove e processed =>
      simp only [hpc, Option.some.injEq] at h
      cases processed with
      | true =>
          simp only [↓reduceIte] at h
          split at h <;> subst h
          · exact .removes hpc ‹_›
          · simpa only [hpc] using Works.underflows hpc ‹_›
      | false => exact h ▸ .keeps hpc
  | unlock =>
      simp only [hpc, Option.some.injEq] at h
      exact h ▸ .unlocks hpc
  | blocked | processing | finished => simp [hpc] at h

inductive Steps (s : TaskQueue α T) : Action α T → TaskQueue α T → Prop
  | push {t : T} {task : α} {retval : Int} (henter : s.CanEnter t) :
      Steps s (.pushToQueue t task) ((s.push task).goesTo t (.pushed retval))
  | size {t : T} {retval : Int} (henter : s.CanEnter t) :
      Steps s (.size t) (s.goesTo t (.reported retval))
  | pop {t : T} (henter : s.CanEnter t) : Steps s (.pop t) (s.pop.goesTo t .idle)
  | stop {t : T} (henter : s.CanEnter t) :
      Steps s (.stopQueue t) ({ s with runWorkerThread := false }.goesTo t .stopped)
  | notify {t : T} {caller : Caller} (hcaller : caller = .joining → s.callers t = .stopped) :
      Steps s (.resume t) (s.notified.goesTo t caller)
  | joined {t : T} (hcaller : s.callers t = .joining) (hpc : s.pc = .finished) :
      Steps s (.resume t) { s.goesTo t .idle with joinable := false }
  | work {s' : TaskQueue α T} (hworks : s.Works s') : Steps s .worker s'
  | returns {e : Entry α} {processed : Bool} (hpc : s.pc = .processing e) :
      Steps s (.processed processed)
        { s with pc := .relock e processed, trace := s.trace ++ [.done e processed] }
  | wake : Steps s .wakeWorker s.notified

theorem step_cases {s s' : TaskQueue α T} {a : Action α T} (h : s.step a = some s') :
    s.undefined = false ∧ s.Steps a s' := by
  rw [step] at h
  split_ifs at h with hundefined
  refine ⟨eq_false_of_ne_true hundefined, ?_⟩
  cases a with
  | pushToQueue t task =>
      rw [next] at h
      split_ifs at h with henter
      cases h
      exact .push henter
  | size t =>
      rw [next] at h
      split_ifs at h with henter
      cases h
      exact .size henter
  | pop t =>
      rw [next] at h
      split_ifs at h with henter
      cases h
      exact .pop henter
  | stopQueue t =>
      rw [next] at h
      split_ifs at h with henter
      cases h
      exact .stop henter
  | resume t =>
      rw [next, resumes] at h
      cases hcaller : s.callers t with
      | idle | reported => simp [hcaller] at h
      | pushed =>
          simp only [hcaller, Option.some.injEq] at h
          exact h ▸ .notify (by simp)
      | stopped =>
          simp only [hcaller, Option.some.injEq] at h
          exact h ▸ .notify fun _ => hcaller
      | joining =>
          simp only [hcaller] at h
          split at h
          · cases h
            exact .joined hcaller ‹_›
          · cases h
  | worker => exact .work (work_cases h)
  | processed processed =>
      rw [next, returns] at h
      split at h
      · cases h
        exact .returns ‹_›
      · cases h
  | wakeWorker =>
      cases h
      exact .wake

end TaskQueue

end Shapeware.TaskQueue2
