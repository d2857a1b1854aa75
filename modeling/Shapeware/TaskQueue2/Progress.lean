import Shapeware.Library.Inevitably
import Shapeware.TaskQueue2.Fifo
import Shapeware.TaskQueue2.Wakeup

/-!
# The queue with retry is drained

The worker goes round for ever, with a wait in every round. As long as the processing function returns
`true`, every round removes a task, so the queue is drained unless it was stopped before; and once it
is stopped, the round is the last one whatever the function returns, and `stopQueue` returns.
-/

namespace Shapeware.TaskQueue2

/-- What a caller is still to do. -/
def Caller.toDo : Caller → Nat
  | .idle | .reported _ => 0
  | .pushed _ | .joining => 1
  | .stopped => 2

variable {α : Type}

/-- How far the worker is from the end of its round. -/
def WorkerPc.toEnd : WorkerPc α → Nat
  | .finished => 0
  | .outer => 1
  | .unlock => 2
  | .remove .. => 3
  | .relock .. => 4
  | .processing _ => 5
  | .process _ => 6
  | .unlockTask _ => 7
  | .look => 8
  | .reacquire => 9
  | .blocked => 10
  | .wait => 11
  | .lock => 12

/-- How far the worker is from removing a task, if it is processed with success. -/
def WorkerPc.toRemove : WorkerPc α → Nat
  | .finished => 0
  | .remove _ true => 2
  | .relock _ true => 3
  | .processing _ => 4
  | .process _ => 5
  | .unlockTask _ => 6
  | .look => 7
  | .reacquire => 8
  | .blocked => 9
  | .wait => 10
  | .lock => 11
  | .outer => 12
  | .unlock => 13
  | .remove _ false => 14
  | .relock _ false => 15

namespace TaskQueue

variable {T : Type} {s s' : TaskQueue α T} {a : Action α T} {F : Finset T}

theorem pop_pc (s : TaskQueue α T) : s.pop.pc = s.pc := by
  unfold pop
  split <;> rfl

theorem pop_callers (s : TaskQueue α T) : s.pop.callers = s.callers := by
  unfold pop
  split <;> rfl

/-- What happens without another call: the wait ends by its timeout, and the processing function
returns. -/
def OwnStep (s : TaskQueue α T) : Action α T → Prop
  | .worker | .resume _ | .processed _ => True
  | .wakeWorker => s.pc = .blocked
  | .pushToQueue .. | .size _ | .pop _ | .stopQueue _ => False

/-- The processing function returns `true`. -/
def Succeeds (s : TaskQueue α T) (a : Action α T) : Prop :=
  s.OwnStep a ∧ (∀ processed, a = .processed processed → processed = true)

theorem Works.callers_eq (h : s.Works s') : s'.callers = s.callers := by
  cases h <;> rfl

theorem Works.runWorkerThread_eq (h : s.Works s') : s'.runWorkerThread = s.runWorkerThread := by
  cases h <;> rfl

theorem notified_callers (s : TaskQueue α T) : s.notified.callers = s.callers := by
  unfold notified
  split <;> rfl

theorem notified_taskQueue (s : TaskQueue α T) : s.notified.taskQueue = s.taskQueue := by
  unfold notified
  split <;> rfl

theorem notified_runWorkerThread (s : TaskQueue α T) :
    s.notified.runWorkerThread = s.runWorkerThread := by
  unfold notified
  split <;> rfl

theorem toEnd_notified (s : TaskQueue α T) : s.notified.pc.toEnd ≤ s.pc.toEnd := by
  unfold notified
  split
  case h_1 hpc => simp [hpc, WorkerPc.toEnd]
  case h_2 => exact le_rfl

theorem toRemove_notified (s : TaskQueue α T) : s.notified.pc.toRemove ≤ s.pc.toRemove := by
  unfold notified
  split
  case h_1 hpc => simp [hpc, WorkerPc.toRemove]
  case h_2 => exact le_rfl

variable [DecidableEq T]

theorem finite_of_reachable {allowed : TaskQueue α T → Action α T → Prop}
    (h : Runs.Reachable step allowed (init : TaskQueue α T) s) :
    {t | s.callers t ≠ .idle}.Finite := by
  refine h.invariant (fun s => {t | s.callers t ≠ .idle}.Finite) (by simp [init])
    fun s a s' hs _ hstep => ?_
  cases (step_cases hstep).2 with
  | push | size | stop | joined => exact Runs.finite_update hs _ _
  | pop => exact Runs.finite_update (pop_callers s ▸ hs) _ _
  | notify => exact Runs.finite_update (notified_callers s ▸ hs) _ _
  | work hworks => exact hworks.callers_eq ▸ hs
  | returns => exact hs
  | wake => exact notified_callers s ▸ hs

/-! ### A caller goes on -/

/-- Nothing but the caller has moved, and the worker may have been woken up. -/
structure CallerMoves (F : Finset T) (s s' : TaskQueue α T) : Prop where
  owed : Runs.owed Caller.toDo F s'.callers < Runs.owed Caller.toDo F s.callers
  idle : Runs.IdleOutside .idle F s'.callers
  toEnd : s'.pc.toEnd ≤ s.pc.toEnd
  toRemove : s'.pc.toRemove ≤ s.pc.toRemove
  taskQueue : s'.taskQueue = s.taskQueue
  runWorkerThread : s'.runWorkerThread = s.runWorkerThread
  trace : s'.trace = s.trace

theorem callerMoves_of_resume {t : T} (hF : Runs.IdleOutside .idle F s.callers)
    (hstep : s.resumes t = some s') : CallerMoves F s s' := by
  rw [resumes] at hstep
  have hnotifies : ∀ caller : Caller, caller.toDo < (s.callers t).toDo →
      CallerMoves F s (s.notified.goesTo t caller) := fun caller hless => by
    have ht : t ∈ F := hF.mem fun hidle => by simp [hidle, Caller.toDo] at hless
    have howed := Runs.owed_update Caller.toDo ht s.callers caller
    refine ⟨?_, ?_, toEnd_notified s, toRemove_notified s, notified_taskQueue s,
      notified_runWorkerThread s, notified_trace s⟩
    · simp only [goesTo, notified_callers]
      omega
    · simp only [goesTo, notified_callers]
      exact hF.update ht
  cases hcaller : s.callers t with
  | idle | reported => simp [hcaller] at hstep
  | pushed =>
      simp only [hcaller, Option.some.injEq] at hstep
      subst hstep
      exact hnotifies _ (by simp [hcaller, Caller.toDo])
  | stopped =>
      simp only [hcaller, Option.some.injEq] at hstep
      subst hstep
      refine hnotifies _ ?_
      split_ifs <;> simp [hcaller, Caller.toDo]
  | joining =>
      simp only [hcaller] at hstep
      split_ifs at hstep
      cases hstep
      have ht : t ∈ F := hF.mem (by simp [hcaller])
      have howed := Runs.owed_update Caller.toDo ht s.callers .idle
      rw [hcaller] at howed
      simp only [Caller.toDo] at howed
      refine ⟨?_, hF.update ht, le_rfl, le_rfl, rfl, rfl, rfl⟩
      simp only [goesTo]
      omega

/-- All that happens without another call. -/
theorem own_cases (hF : Runs.IdleOutside .idle F s.callers) (hown : s.OwnStep a)
    (hstep : s.step a = some s') :
    CallerMoves F s s' ∨ s.Works s' ∨
      (∃ e processed, a = .processed processed ∧ s.pc = .processing e ∧
        s' = { s with pc := .relock e processed, trace := s.trace ++ [.done e processed] }) ∨
      s.pc = .blocked ∧ s' = { s with pc := .reacquire } := by
  rw [step] at hstep
  split_ifs at hstep
  cases a with
  | worker => exact .inr (.inl (work_cases hstep))
  | resume t => exact .inl (callerMoves_of_resume hF hstep)
  | processed processed =>
      rw [next, returns] at hstep
      split at hstep
      · exact .inr (.inr (.inl ⟨_, processed, rfl, ‹_›, (Option.some.inj hstep).symm⟩))
      · cases hstep
  | wakeWorker =>
      have hpc : s.pc = .blocked := hown
      refine .inr (.inr (.inr ⟨hpc, ?_⟩))
      rw [← Option.some.inj hstep]
      simp [notified, hpc]
  | pushToQueue | size | pop | stopQueue => cases hown

/-! ### The last round -/

omit [DecidableEq T] in
theorem toEnd_of_works (hrun : s.runWorkerThread = false) (hdefined : s'.undefined = false)
    (h : s.Works s') : s'.pc.toEnd < s.pc.toEnd := by
  cases h with
  | goesRound _ hgoes => simp [hrun] at hgoes
  | underflows => cases hdefined
  | finishes hpc | locks hpc | sleeps hpc | reacquires hpc | copies hpc | drained hpc
  | unlocksTask hpc | starts hpc | relocks hpc | removes hpc | keeps hpc | unlocks hpc =>
      simp [hpc, WorkerPc.toEnd]

def toEnd (F : Finset T) (s : TaskQueue α T) : Nat :=
  s.pc.toEnd + Runs.owed Caller.toDo F s.callers

theorem toEnd_of_own (hrun : s.runWorkerThread = false) (hdefined : s'.undefined = false)
    (hF : Runs.IdleOutside .idle F s.callers) (hown : s.OwnStep a) (hstep : s.step a = some s') :
    s'.toEnd F < s.toEnd F ∧ Runs.IdleOutside .idle F s'.callers ∧ s'.runWorkerThread = false := by
  obtain hmoves | hworks | ⟨e, processed, -, hpc, rfl⟩ | ⟨hpc, rfl⟩ := own_cases hF hown hstep
  · refine ⟨?_, hmoves.idle, hmoves.runWorkerThread.trans hrun⟩
    have howed := hmoves.owed
    have hpc := hmoves.toEnd
    simp only [toEnd]
    omega
  · have hless := toEnd_of_works hrun hdefined hworks
    rw [toEnd, toEnd, hworks.callers_eq, hworks.runWorkerThread_eq]
    exact ⟨Nat.add_lt_add_right hless _, hF, hrun⟩
  · exact ⟨by simp [toEnd, hpc, WorkerPc.toEnd], hF, hrun⟩
  · exact ⟨by simp [toEnd, hpc, WorkerPc.toEnd], hF, hrun⟩

/-- Every call has returned, and the worker has ended. -/
def Ended (s : TaskQueue α T) : Prop := s.pc = .finished ∧ ∀ t, (s.callers t).toDo = 0

/-- The worker goes on, or its wait or the processing function ends. -/
theorem worker_goes (hdefined : s.undefined = false) (hpc : s.pc ≠ .finished) :
    ∃ a s', s.Succeeds a ∧ s.step a = some s' := by
  by_cases hblocked : s.pc = .blocked
  · exact ⟨.wakeWorker, s.notified, ⟨hblocked, by simp⟩, by simp [step, hdefined, next]⟩
  by_cases hprocessing : ∃ e, s.pc = .processing e
  · obtain ⟨e, hprocessing⟩ := hprocessing
    exact ⟨.processed true, _, ⟨trivial, fun _ heq => (Action.processed.inj heq).symm⟩, by
      simp only [step, hdefined, next, returns, hprocessing]
      rfl⟩
  · have hwork : ∃ s', s.work = some s' := by
      cases hat : s.pc with
      | blocked => exact absurd hat hblocked
      | processing e => exact absurd ⟨e, hat⟩ hprocessing
      | finished => exact absurd hat hpc
      | _ => simp [work, hat]
    obtain ⟨s', hwork⟩ := hwork
    exact ⟨.worker, s', ⟨trivial, by simp⟩, by simpa [step, hdefined, next] using hwork⟩

/-- A caller goes on when the worker has ended. -/
theorem caller_goes {t : T} (hdefined : s.undefined = false) (hpc : s.pc = .finished)
    (ht : (s.callers t).toDo ≠ 0) : ∃ s', s.step (.resume t) = some s' := by
  simp only [step, hdefined, next, resumes, hpc]
  cases hcaller : s.callers t with
  | idle | reported => simp [hcaller, Caller.toDo] at ht
  | pushed | stopped | joining => simp

/-! ### A task in every round -/

omit [DecidableEq T] in
/-- With a task in the queue, the round goes on to the removal. -/
theorem toRemove_of_works (hqueue : s.taskQueue ≠ []) (h : s.Works s') :
    12 * s'.taskQueue.length + s'.pc.toRemove < 12 * s.taskQueue.length + s.pc.toRemove := by
  cases h with
  | drained _ hempty => exact absurd hempty hqueue
  | underflows _ hempty => exact absurd hempty hqueue
  | removes hpc hcons =>
      simp only [hpc, hcons, WorkerPc.toRemove, List.length_cons]
      omega
  | @relocks e processed hpc => cases processed <;> simp [hpc, WorkerPc.toRemove]
  | goesRound hpc | finishes hpc | locks hpc | sleeps hpc | reacquires hpc | copies hpc
  | unlocksTask hpc | starts hpc | keeps hpc | unlocks hpc =>
      simp [hpc, WorkerPc.toRemove]

def toRemove (F : Finset T) (s : TaskQueue α T) : Nat :=
  12 * s.taskQueue.length + s.pc.toRemove + Runs.owed Caller.toDo F s.callers

theorem toRemove_of_succeeds (hqueue : s.taskQueue ≠ []) (hF : Runs.IdleOutside .idle F s.callers)
    (hsucceeds : s.Succeeds a) (hstep : s.step a = some s') :
    s'.toRemove F < s.toRemove F ∧ Runs.IdleOutside .idle F s'.callers := by
  obtain hmoves | hworks | ⟨e, processed, rfl, hpc, rfl⟩ | ⟨hpc, rfl⟩ :=
    own_cases hF hsucceeds.1 hstep
  · refine ⟨?_, hmoves.idle⟩
    have howed := hmoves.owed
    have hpc := hmoves.toRemove
    simp only [toRemove, hmoves.taskQueue]
    omega
  · have hless := toRemove_of_works hqueue hworks
    rw [toRemove, toRemove, hworks.callers_eq]
    exact ⟨Nat.add_lt_add_right hless _, hF⟩
  · obtain rfl := hsucceeds.2 processed rfl
    exact ⟨by simp [toRemove, hpc, WorkerPc.toRemove], hF⟩
  · exact ⟨by simp [toRemove, hpc, WorkerPc.toRemove], hF⟩

/-! ### All runs -/

omit [DecidableEq T] in
theorem OwnStep.noPop (h : s.OwnStep a) : s.NoPop a := by
  cases a with
  | pop => exact h.elim
  | _ => trivial

theorem frame_of_own (hF : Runs.IdleOutside .idle F s.callers) (hown : s.OwnStep a)
    (hstep : s.step a = some s') :
    pushedEntries s'.trace = pushedEntries s.trace ∧ s'.runWorkerThread = s.runWorkerThread := by
  obtain hmoves | hworks | ⟨e, processed, -, -, rfl⟩ | ⟨-, rfl⟩ := own_cases hF hown hstep
  · exact ⟨by rw [hmoves.trace], hmoves.runWorkerThread⟩
  · refine ⟨?_, hworks.runWorkerThread_eq⟩
    cases hworks with
    | starts | removes => simp [pushedEntries]
    | _ => rfl
  · exact ⟨by simp [pushedEntries], rfl⟩
  · exact ⟨rfl, rfl⟩

/-- The worker has only ended when it was told to. -/
theorem stopped_of_finished {allowed : TaskQueue α T → Action α T → Prop}
    (h : Runs.Reachable step allowed (init : TaskQueue α T) s) (hpc : s.pc = .finished) :
    s.runWorkerThread = false := by
  refine h.invariant (fun s => s.pc = .finished → s.runWorkerThread = false) (by simp [init])
    (fun s a s' hs _ hstep hpc => ?_) hpc
  have hnotified : s.notified.pc = .finished → s.notified.runWorkerThread = false := fun hpc => by
    rw [notified_runWorkerThread]
    refine hs ?_
    unfold notified at hpc
    split at hpc
    · cases hpc
    · exact hpc
  cases (step_cases hstep).2 with
  | push | size | joined => exact hs hpc
  | pop =>
      have hrun : s.pop.runWorkerThread = s.runWorkerThread := by
        unfold pop
        split <;> rfl
      exact hrun.trans (hs ((pop_pc s).symm.trans hpc))
  | stop => rfl
  | notify | wake => exact hnotified hpc
  | returns => cases hpc
  | work hworks =>
      cases hworks with
      | finishes _ hstop => exact hstop
      | underflows hpc' => simp [hpc'] at hpc
      | _ => cases hpc

theorem inevitably_drained (h : Runs.Reachable step NoPop (init : TaskQueue α T) s)
    (hrun : s.runWorkerThread = true) :
    Runs.Inevitably step Succeeds (fun t => removedEntries t.trace = pushedEntries s.trace) s := by
  obtain ⟨F, hF⟩ := Runs.exists_idleOutside (finite_of_reachable h)
  refine (Runs.inevitably_of_rank (P := fun t => t.taskQueue = []) (fun t =>
    Runs.Reachable step NoPop (init : TaskQueue α T) t ∧ Runs.IdleOutside .idle F t.callers ∧
      pushedEntries t.trace = pushedEntries s.trace ∧ t.runWorkerThread = true)
    (toRemove F) ?_ ?_ ⟨h, hF, rfl, hrun⟩).mono ?_
  · rintro t ⟨ht, -, -, hrun⟩ -
    refine worker_goes (InLine.of_reachable ht).defined fun hpc => ?_
    exact absurd (stopped_of_finished ht hpc) (by simp [hrun])
  · rintro t a t' ⟨ht, hidle, hpushed, hrun⟩ hqueue hsucceeds hstep
    obtain ⟨hless, hidle'⟩ := toRemove_of_succeeds hqueue hidle hsucceeds hstep
    obtain ⟨hpushed', hrun'⟩ := frame_of_own hidle hsucceeds.1 hstep
    exact ⟨⟨.tail a ht hsucceeds.1.noPop hstep, hidle', hpushed'.trans hpushed, hrun'.trans hrun⟩,
      hless⟩
  · rintro t ⟨hempty, ht, -, hpushed, -⟩
    rw [← hpushed, ← (InLine.of_reachable ht).removed_append_queue, hempty, List.append_nil]

theorem inevitably_ended (h : Runs.Reachable step NoPop (init : TaskQueue α T) s)
    (hstop : s.runWorkerThread = false) : Runs.Inevitably step OwnStep Ended s := by
  obtain ⟨F, hF⟩ := Runs.exists_idleOutside (finite_of_reachable h)
  refine (Runs.inevitably_of_rank (P := Ended) (fun t => t.InLine ∧
    Runs.IdleOutside .idle F t.callers ∧ t.runWorkerThread = false) (toEnd F) ?_ ?_
    ⟨InLine.of_reachable h, hF, hstop⟩).mono fun t ht => ht.1
  · rintro t ⟨hline, -, -⟩ hnot
    by_cases hpc : t.pc = .finished
    · obtain ⟨u, hu⟩ : ∃ u, (t.callers u).toDo ≠ 0 := by
        by_contra hall
        exact hnot ⟨hpc, fun u => by_contra fun hu => hall ⟨u, hu⟩⟩
      obtain ⟨t', ht'⟩ := caller_goes hline.defined hpc hu
      exact ⟨.resume u, t', trivial, ht'⟩
    · obtain ⟨a, t', hsucceeds, ht'⟩ := worker_goes hline.defined hpc
      exact ⟨a, t', hsucceeds.1, ht'⟩
  · rintro t a t' ⟨hline, hidle, hrun⟩ - hown hstep
    have hline' := hline.step hown.noPop (step_cases hstep).2
    obtain ⟨hless, hidle', hrun'⟩ := toEnd_of_own hrun hline'.defined hidle hown hstep
    exact ⟨⟨hline', hidle', hrun'⟩, hless⟩

/-- **The queue with retry gets done**: until it is stopped, all runs in which the function returns
`true` remove every pushed task; and once it is stopped, all runs come to an end of the worker and to a
return from every call, whatever the function returns. -/
theorem drains (h : Runs.Reachable step NoPop (init : TaskQueue α T) s) :
    (s.runWorkerThread = true → Runs.Inevitably step Succeeds
      (fun t => removedEntries t.trace = pushedEntries s.trace) s) ∧
    (s.runWorkerThread = false → Runs.Inevitably step OwnStep Ended s) :=
  ⟨inevitably_drained h, inevitably_ended h⟩

/-- A task has failed once, another one waits, and the queue is stopped. -/
theorem drains_stopped : ∃ s : TaskQueue Nat Bool, s.callers true = .stopped ∧
    s.taskQueue = [⟨0, 7⟩, ⟨1, 8⟩] ∧ Runs.Inevitably step OwnStep Ended s := by
  have hrun : ∃ s : TaskQueue Nat Bool, Runs.Reachable step NoPop init s ∧
      s.callers true = .stopped ∧ s.taskQueue = [⟨0, 7⟩, ⟨1, 8⟩] ∧ s.runWorkerThread = false :=
    Runs.exists_reachable (List.flatten [List.replicate 3 .worker,
      [.pushToQueue false 7, .resume false], List.replicate 4 .worker,
      [.pushToQueue false 8, .processed false, .stopQueue true]]) (by decide +kernel)
  obtain ⟨s, hs, hcaller, hqueue, hstop⟩ := hrun
  exact ⟨s, hcaller, hqueue, (drains hs).2 hstop⟩

end TaskQueue

end Shapeware.TaskQueue2
