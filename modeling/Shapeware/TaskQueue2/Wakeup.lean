import Shapeware.TaskQueue2.Fifo

/-!
# What the worker of the queue with retry sleeps through

`wait_for` is called without a predicate, so that the worker also goes to sleep on tasks whose
notification came before, and it takes one task for each time it is woken. Whether it does can be told
from how many tasks it saw at its last look at the queue, and how many were pushed since.
-/

namespace Shapeware.TaskQueue2

variable {α T : Type}

def lastProcessed (trace : List (Event α)) : Option Bool :=
  (trace.filterMap fun
    | .done _ processed => some processed
    | _ => none).getLast?

theorem lastProcessed_append {trace : List (Event α)} {e : Event α}
    (h : ∀ entry processed, e ≠ .done entry processed) :
    lastProcessed (trace ++ [e]) = lastProcessed trace := by
  cases e with
  | done entry processed => exact absurd rfl (h entry processed)
  | pushed | started | removed | popped => simp [lastProcessed]

/-- The thread is between its critical section of `pushToQueue` and its `notify_all`. -/
def Caller.aboutToNotify : Caller → Prop
  | .pushed _ => True
  | _ => False

namespace TaskQueue

/-- The callers push, and nothing else. -/
def Pushes (_ : TaskQueue α T) : Action α T → Prop
  | .size _ | .pop _ | .stopQueue _ => False
  | _ => True

instance (s : TaskQueue α T) (a : Action α T) : Decidable (s.Pushes a) :=
  match a with
  | .size _ | .pop _ | .stopQueue _ => isFalse id
  | .pushToQueue _ _ | .resume _ | .worker | .processed _ | .wakeWorker => isTrue trivial

/-- The worker sleeps only on an empty queue, or after a failure, or while a pusher is about to
notify it. -/
def SleepsIdle (s : TaskQueue α T) : Prop :=
  s.pc = .blocked → (∀ t, ¬ (s.callers t).aboutToNotify) → lastProcessed s.trace ≠ some false →
    s.taskQueue = []

variable {s s' : TaskQueue α T}

theorem notified_ne_blocked (s : TaskQueue α T) : s.notified.pc ≠ .blocked := by
  unfold notified
  split
  case h_1 => simp
  case h_2 hpc => exact hpc

theorem CanEnter.not_aboutToNotify {t : T} (h : s.CanEnter t) :
    ¬ (s.callers t).aboutToNotify := by
  obtain ⟨-, hcaller⟩ := h
  cases hcall : s.callers t with
  | pushed => simp [hcall] at hcaller
  | idle | reported | stopped | joining => exact id

variable [DecidableEq T]

/-- What the callers owe is the same as before the critical section. -/
theorem CanEnter.none_about {t : T} (h : s.CanEnter t) {caller : Caller}
    (hquiet : ∀ t', ¬ ((Function.update s.callers t caller) t').aboutToNotify) (t' : T) :
    ¬ (s.callers t').aboutToNotify := by
  by_cases ht : t' = t
  · exact ht ▸ h.not_aboutToNotify
  · simpa [Function.update_of_ne ht] using hquiet t'

theorem SleepsIdle.step {a : Action α T} (h : s.SleepsIdle) (hpop : s.NoPop a)
    (hwait : a = .worker → s.pc = .wait → (∀ t, ¬ (s.callers t).aboutToNotify) →
      lastProcessed s.trace ≠ some false → s.taskQueue = [])
    (hsteps : s.Steps a s') : s'.SleepsIdle := by
  intro hblocked hquiet hlast
  cases hsteps with
  | @push t =>
      -- the pusher has not notified the worker yet
      exact absurd trivial (by simpa [goesTo, Caller.aboutToNotify] using hquiet t)
  | size henter => exact h hblocked (henter.none_about hquiet) hlast
  | stop henter => exact h hblocked (henter.none_about hquiet) hlast
  | pop => exact hpop.elim
  | notify | wake => exact absurd hblocked (notified_ne_blocked s)
  | joined _ hpc => simp [goesTo, hpc] at hblocked
  | work hworks =>
      cases hworks with
      | sleeps hpc => exact hwait rfl hpc hquiet hlast
      | goesRound | finishes | locks | reacquires | copies | drained | unlocksTask | starts | relocks
      | removes | keeps | unlocks => cases hblocked
      | underflows hpc => simp [hpc] at hblocked
  | returns => cases hblocked

end TaskQueue

/-! ### The queue under watch -/

/-- From its look at the queue to the removal of the task that it has seen there. -/
def WorkerPc.isBusy : WorkerPc α → Bool
  | .unlockTask _ | .process _ | .processing _ | .relock _ _ | .remove _ _ => true
  | .outer | .lock | .wait | .blocked | .reacquire | .look | .unlock | .finished => false

/-- A queue, with the number of tasks that the worker saw at its last look, and of those that were
pushed since. -/
structure Watched (α T : Type) where
  queue : TaskQueue α T
  seen : Nat
  since : Nat

namespace Watched

open TaskQueue

def init : Watched α T := ⟨.init, 0, 0⟩

/-- Watching the step of an action that leads to `queue`. -/
def watch (w : Watched α T) (queue : TaskQueue α T) : Action α T → Watched α T
  | .pushToQueue _ _ => ⟨queue, w.seen, w.since + 1⟩
  | .worker =>
    match w.queue.pc with
    | .look => ⟨queue, w.queue.taskQueue.length, 0⟩
    | _ => ⟨queue, w.seen, w.since⟩
  | .size _ | .pop _ | .stopQueue _ | .resume _ | .processed _ | .wakeWorker =>
    ⟨queue, w.seen, w.since⟩

/-- The worker calls `wait_for` when it saw at most one task at its last look and nothing was pushed
since, or when a pusher has left its critical section and has not notified yet, or after a failure. -/
def WaitsInTime (w : Watched α T) : Action α T → Prop
  | .worker =>
    w.queue.pc = .wait → w.seen ≤ 1 ∧ w.since = 0 ∨
      (∃ t, (w.queue.callers t).aboutToNotify) ∨ lastProcessed w.queue.trace = some false
  | _ => True

@[simp] theorem watch_queue (w : Watched α T) (queue : TaskQueue α T) (a : Action α T) :
    (w.watch queue a).queue = queue := by
  unfold watch
  split
  case h_2 => split <;> rfl
  all_goals rfl

variable {w w' : Watched α T} {a : Action α T}

/-- Between a look at the queue and the removal all that was seen is there, and after it one task
less, unless the processing has failed. -/
structure Accounts (w : Watched α T) : Prop where
  busy : w.queue.pc.isBusy = true →
    w.queue.taskQueue.length = w.seen + w.since ∧ 0 < w.seen
  rests : w.queue.pc.isBusy = false → lastProcessed w.queue.trace ≠ some false →
    w.queue.taskQueue.length = w.seen - 1 + w.since
  removes : ∀ e processed, w.queue.pc = .relock e processed ∨ w.queue.pc = .remove e processed →
    lastProcessed w.queue.trace = some processed

theorem watch_worker (h : w.queue.pc ≠ .look) (queue : TaskQueue α T) :
    w.watch queue .worker = ⟨queue, w.seen, w.since⟩ := by
  unfold watch
  split
  case h_2 heq =>
      split
      · exact absurd ‹_› h
      · rfl
  all_goals simp_all

namespace Accounts

theorem init : (init : Watched α T).Accounts where
  busy h := by simp [Watched.init, TaskQueue.init, WorkerPc.isBusy] at h
  rests _ _ := rfl
  removes := by simp [Watched.init, TaskQueue.init]

/-- Nothing has changed that counts. -/
theorem quiet (h : w.Accounts) {queue : TaskQueue α T} (htasks : queue.taskQueue = w.queue.taskQueue)
    (hlast : lastProcessed queue.trace = lastProcessed w.queue.trace)
    (hbusy : queue.pc.isBusy = w.queue.pc.isBusy)
    (hremoves : ∀ e processed, queue.pc = .relock e processed ∨ queue.pc = .remove e processed →
      w.queue.pc = .relock e processed ∨ w.queue.pc = .remove e processed) :
    Accounts ⟨queue, w.seen, w.since⟩ where
  busy hpc := htasks ▸ h.busy (hbusy ▸ hpc)
  rests hpc hfailed := htasks ▸ h.rests (hbusy ▸ hpc) (hlast ▸ hfailed)
  removes e processed hpc := hlast.trans (h.removes e processed (hremoves e processed hpc))

theorem notified (h : w.Accounts) : Accounts ⟨w.queue.notified, w.seen, w.since⟩ := by
  unfold TaskQueue.notified
  split
  case h_1 hpc => exact h.quiet rfl rfl (by simp [hpc, WorkerPc.isBusy]) (by simp)
  case h_2 => exact h

theorem push (h : w.Accounts) (task : α) : Accounts ⟨w.queue.push task, w.seen, w.since + 1⟩ where
  busy hpc := by
    obtain ⟨hlength, hseen⟩ := h.busy hpc
    exact ⟨by simp [TaskQueue.push, hlength, Nat.add_assoc], hseen⟩
  rests hpc hfailed := by
    have hsame : lastProcessed (w.queue.push task).trace = lastProcessed w.queue.trace :=
      lastProcessed_append (by simp)
    simp [TaskQueue.push, h.rests hpc (hsame ▸ hfailed), Nat.add_assoc]
  removes e processed hpc := (lastProcessed_append (by simp)).trans (h.removes e processed hpc)

theorem works (h : w.Accounts) {queue : TaskQueue α T} (hworks : w.queue.Works queue) :
    (w.watch queue .worker).Accounts := by
  by_cases hlook : w.queue.pc = .look
  case neg =>
    rw [watch_worker hlook]
    cases hworks with
    | goesRound hpc | finishes hpc | locks hpc | sleeps hpc | reacquires hpc | unlocksTask hpc
    | unlocks hpc => exact h.quiet rfl rfl (by simp [hpc, WorkerPc.isBusy]) (by simp)
    | copies hpc | drained hpc => exact absurd hpc hlook
    | starts hpc =>
        exact h.quiet rfl (lastProcessed_append (by simp)) (by simp [hpc, WorkerPc.isBusy]) (by simp)
    | relocks hpc => exact h.quiet rfl rfl (by simp [hpc, WorkerPc.isBusy]) (by simp [hpc])
    | underflows => exact h.quiet rfl rfl rfl fun _ _ => id
    | @removes e e' rest hpc hqueue =>
        obtain ⟨hlength, hseen⟩ := h.busy (by simp [hpc, WorkerPc.isBusy])
        rw [hqueue, List.length_cons] at hlength
        refine ⟨by simp [WorkerPc.isBusy], fun _ _ => ?_, by simp⟩
        change rest.length = w.seen - 1 + w.since
        omega
    | keeps hpc =>
        refine ⟨by simp [WorkerPc.isBusy], fun _ hfailed => ?_, by simp⟩
        exact absurd (h.removes _ _ (.inr hpc)) hfailed
  case pos =>
    have hwatch : w.watch queue .worker = ⟨queue, w.queue.taskQueue.length, 0⟩ := by
      simp [watch, hlook]
    rw [hwatch]
    cases hworks with
    | @copies e rest hpc hqueue => exact ⟨fun _ => by simp [hqueue], by simp [WorkerPc.isBusy], by simp⟩
    | drained hpc hqueue => exact ⟨by simp [WorkerPc.isBusy], fun _ _ => by simp [hqueue], by simp⟩
    | goesRound hpc | finishes hpc | locks hpc | sleeps hpc | reacquires hpc | unlocksTask hpc
    | unlocks hpc | starts hpc | relocks hpc | underflows hpc | removes hpc | keeps hpc =>
        simp [hpc] at hlook

/-- At the wait the schedule tells whether the queue is empty. -/
theorem empty_iff (h : w.Accounts) (hpc : w.queue.pc = .wait)
    (hfailed : lastProcessed w.queue.trace ≠ some false) :
    w.queue.taskQueue = [] ↔ w.seen ≤ 1 ∧ w.since = 0 := by
  have hlength := h.rests (by simp [hpc, WorkerPc.isBusy]) hfailed
  rw [← List.length_eq_zero_iff]
  omega

end Accounts

variable [DecidableEq T]

def step (w : Watched α T) (a : Action α T) : Option (Watched α T) :=
  (w.queue.step a).map fun queue => w.watch queue a

/-- Every run of the queue can be watched. -/
theorem exists_watched {allowed : TaskQueue α T → Action α T → Prop} {s : TaskQueue α T}
    (h : Runs.Reachable TaskQueue.step allowed TaskQueue.init s) :
    ∃ w, Runs.Reachable step (fun w a => allowed w.queue a) init w ∧ w.queue = s := by
  induction h with
  | refl => exact ⟨init, .refl, rfl⟩
  | tail a _ hallowed hstep ih =>
      obtain ⟨w, hw, rfl⟩ := ih
      exact ⟨_, .tail a hw hallowed (by rw [step, hstep]; rfl), watch_queue ..⟩

theorem reachable_queue {allowed : TaskQueue α T → Action α T → Prop}
    (h : Runs.Reachable step (fun w a => allowed w.queue a) init w) :
    Runs.Reachable TaskQueue.step allowed TaskQueue.init w.queue := by
  induction h with
  | refl => exact .refl
  | tail a _ hallowed hstep ih =>
      obtain ⟨queue, hqueue, rfl⟩ := Option.map_eq_some_iff.mp hstep
      rw [watch_queue]
      exact .tail a ih hallowed hqueue

theorem Accounts.step (h : w.Accounts) (hpop : w.queue.NoPop a) (hstep : w.step a = some w') :
    w'.Accounts := by
  obtain ⟨queue, hqueue, rfl⟩ := Option.map_eq_some_iff.mp hstep
  cases (step_cases hqueue).2 with
  | @push t task retval => exact (h.push task).quiet rfl rfl rfl fun _ _ => id
  | size | stop | joined => exact h.quiet rfl rfl rfl fun _ _ => id
  | pop => exact hpop.elim
  | notify => exact h.notified.quiet rfl rfl rfl fun _ _ => id
  | work hworks => exact h.works hworks
  | @returns e processed hpc =>
      have hlast : lastProcessed (w.queue.trace ++ [.done e processed]) = some processed := by
        simp [lastProcessed]
      obtain ⟨hlength, hseen⟩ := h.busy (by simp [hpc, WorkerPc.isBusy])
      exact ⟨fun _ => ⟨hlength, hseen⟩, by simp [watch, WorkerPc.isBusy], by simp [watch, hlast]⟩
  | wake => exact h.notified

theorem accounts_of_reachable {guard : Watched α T → Action α T → Prop}
    (h : Runs.Reachable step (fun w a => guard w a ∧ w.queue.NoPop a) init w) : w.Accounts :=
  h.invariant Accounts .init fun _ _ _ hinv hallowed hstep => hinv.step hallowed.2 hstep

theorem keeps_idle_iff (allowed : TaskQueue α T → Action α T → Prop) :
    Runs.Keeps step (fun w a => allowed w.queue a ∧ w.queue.NoPop a) (fun w => w.queue.SleepsIdle)
        init w ↔
      Runs.Reachable step (fun w a => (allowed w.queue a ∧ w.queue.NoPop a) ∧ w.WaitsInTime a)
        init w := by
  refine Runs.keeps_iff (fun w hw => ?_) fun w a w' hw hallowed hstep hlate hidle => ?_
  · refine hw.invariant_of_reachable (fun w => w.queue.SleepsIdle) (fun h => by cases h)
      fun w a w' hreach hidle hallowed hstep => ?_
    have haccounts := accounts_of_reachable (hreach.mono fun _ _ h => ⟨h.1.1, h.1.2⟩)
    obtain ⟨queue, hqueue, rfl⟩ := Option.map_eq_some_iff.mp hstep
    rw [watch_queue]
    refine hidle.step hallowed.1.2 ?_ (step_cases hqueue).2
    rintro rfl hpc hquiet hfailed
    obtain hseen | ⟨t, ht⟩ | hfailed' := hallowed.2 hpc
    · exact (haccounts.empty_iff hpc hfailed).mpr hseen
    · exact absurd ht (hquiet t)
    · exact absurd hfailed' hfailed
  · have haccounts := accounts_of_reachable (hw.mono fun _ _ h => ⟨h.1.1, h.1.2⟩)
    obtain ⟨queue, hqueue, rfl⟩ := Option.map_eq_some_iff.mp hstep
    rw [watch_queue] at hidle
    cases (step_cases hqueue).2 with
    | push | size | pop | stop | notify | joined | returns | wake => exact hlate trivial
    | work hworks =>
        simp only [WaitsInTime, Classical.not_imp, not_or, not_exists] at hlate
        obtain ⟨hpc, hseen, hquiet, hfailed⟩ := hlate
        cases hworks with
        | sleeps => exact hseen ((haccounts.empty_iff hpc hfailed).mp (hidle rfl hquiet hfailed))
        | goesRound hpc' | finishes hpc' | locks hpc' | reacquires hpc' | copies hpc' | drained hpc'
        | unlocksTask hpc' | starts hpc' | relocks hpc' | removes hpc' | keeps hpc' | unlocks hpc'
        | underflows hpc' => simp [hpc'] at hpc

end Watched

namespace TaskQueue

variable [DecidableEq T]

/-- **Sleeping on tasks, and when.** In the runs in which nobody calls `pop`, and whatever else the
callers are allowed to do, the worker never sleeps on a task exactly if it never comes to `wait_for`
after it saw more than one task, or after a push that was notified already. -/
theorem sleeps_idle_iff_waits_in_time (allowed : TaskQueue α T → Action α T → Prop) :
    Runs.Keeps step (fun s a => allowed s a ∧ s.NoPop a) SleepsIdle init s ↔
      ∃ w : Watched α T, Runs.Reachable Watched.step
        (fun w a => (allowed w.queue a ∧ w.queue.NoPop a) ∧ w.WaitsInTime a) Watched.init w ∧
        w.queue = s := by
  constructor
  · rintro ⟨hinit, h⟩
    obtain ⟨w, hw, rfl⟩ := Watched.exists_watched h
    refine ⟨w, (Watched.keeps_idle_iff allowed).mp ⟨hinit, ?_⟩, rfl⟩
    refine hw.mono fun w a hallowed => ⟨hallowed.1, fun w' hstep => ?_⟩
    obtain ⟨queue, hqueue, rfl⟩ := Option.map_eq_some_iff.mp hstep
    rw [Watched.watch_queue]
    exact hallowed.2 queue hqueue
  · rintro ⟨w, hw, rfl⟩
    obtain ⟨hinit, h⟩ := (Watched.keeps_idle_iff allowed).mpr hw
    refine ⟨hinit, Watched.reachable_queue (h.mono fun w a hallowed => ⟨hallowed.1, ?_⟩)⟩
    intro queue hqueue
    have hidle : (w.watch queue a).queue.SleepsIdle :=
      hallowed.2 (w.watch queue a) (by rw [Watched.step, hqueue]; rfl)
    rwa [Watched.watch_queue] at hidle

/-- A task is pushed before the worker has come to its first wait, and nothing ever failed. -/
theorem sleeps_on_task :
    ¬ ∀ s : TaskQueue Nat Bool, Runs.Reachable step Pushes init s → s.SleepsIdle := by
  have hrun : ∃ s : TaskQueue Nat Bool, Runs.Reachable step Pushes init s ∧ s.pc = .blocked ∧
      (∀ t, s.callers t = .idle ∨ s.callers t = .reported 1) ∧ lastProcessed s.trace = none ∧
      s.taskQueue = [⟨0, 7⟩] :=
    Runs.exists_reachable ([.pushToQueue false 7, .resume false] ++ List.replicate 3 .worker)
      (by decide +kernel)
  obtain ⟨s, hs, hblocked, hcallers, hlast, hqueue⟩ := hrun
  intro hall
  have hempty := hall s hs hblocked
    (fun t => by obtain h | h := hcallers t <;> simp [h, Caller.aboutToNotify]) (by simp [hlast])
  simp [hqueue] at hempty

end TaskQueue

end Shapeware.TaskQueue2
