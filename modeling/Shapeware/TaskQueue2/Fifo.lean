import Shapeware.Library.History
import Shapeware.TaskQueue2.Conservation

/-!
# The task queue with retry keeps the order of the pushes

As long as nobody calls `pop`, the head stays where it is while the worker processes its copy,
however often it is processed again, and whatever is pushed meanwhile comes behind it.
-/

namespace Shapeware.TaskQueue2

variable {α T : Type}

def startedEntries (trace : List (Event α)) : List (Entry α) :=
  trace.filterMap fun
    | .started e => some e
    | _ => none

/-- The function is called with the oldest task that was not removed, and those before it are
exactly the tasks that were processed. -/
def CallsOldest (before : List (Event α)) : Event α → Prop
  | .started e =>
    removedEntries before ++ [e] <+: pushedEntries before ∧
      processedEntries before = removedEntries before
  | _ => True

theorem leftEntries_eq_removedEntries {trace : List (Event α)} (h : poppedEntries trace = []) :
    leftEntries trace = removedEntries trace := by
  refine List.filterMap_congr fun event hevent => ?_
  cases event with
  | popped e => simpa using List.filterMap_eq_nil_iff.mp h _ hevent
  | pushed | started | done | removed => rfl

namespace TaskQueue

/-- Nobody calls `pop`. -/
def NoPop (_ : TaskQueue α T) : Action α T → Prop
  | .pop _ => False
  | _ => True

instance (s : TaskQueue α T) (a : Action α T) : Decidable (s.NoPop a) :=
  match a with
  | .pop _ => isFalse id
  | .pushToQueue _ _ | .size _ | .stopQueue _ | .resume _ | .worker | .processed _ | .wakeWorker =>
    isTrue trivial

variable {s s' u : TaskQueue α T}

structure InLine (s : TaskQueue α T) : Prop extends Sound s where
  unpopped : poppedEntries s.trace = []
  kept : processedEntries s.trace = removedEntries s.trace ++ s.pc.succeeded.toList
  calls : History.Always CallsOldest s.trace
  joined : s.joinable = false → s.pc = .finished

namespace InLine

theorem init : (init : TaskQueue α T).InLine where
  toSound := .init
  unpopped := rfl
  kept := rfl
  calls := History.always_nil
  joined := by simp [TaskQueue.init]

theorem removed_append_queue (h : s.InLine) :
    removedEntries s.trace ++ s.taskQueue = pushedEntries s.trace := by
  rw [← leftEntries_eq_removedEntries h.unpopped]
  exact h.conserved

theorem head_of_inHand (h : s.InLine) {e : Entry α} (he : s.pc.inHand = some e) :
    s.taskQueue.head? = some e := by
  refine (h.inHand e he).resolve_right fun hpopped => ?_
  simp [h.unpopped] at hpopped

theorem undisturbed [DecidableEq T] (h : s.InLine) {a : Action α T} (hpop : s.NoPop a)
    (hsteps : s.Steps a s') : s.Undisturbed a := by
  cases hsteps with
  | pop => exact hpop.elim
  | @returns e processed hpc =>
      intro _
      have hhand : s.pc.inHand = some e := by rw [hpc]; rfl
      rw [hhand, h.head_of_inHand hhand]
  | push | size | stop | notify | joined | work | wake => trivial

theorem quiet (h : s.InLine) (hsound : s'.Sound) (htrace : s'.trace = s.trace)
    (hsucceeded : s'.pc.succeeded = s.pc.succeeded) (hjoinable : s'.joinable = s.joinable)
    (hfinished : s.pc = .finished → s'.pc = .finished) : s'.InLine := by
  refine ⟨hsound, ?_, ?_, ?_, fun hjoined => hfinished (h.joined (hjoinable ▸ hjoined))⟩
  · rw [htrace]
    exact h.unpopped
  · rw [htrace, hsucceeded]
    exact h.kept
  · rw [htrace]
    exact h.calls

theorem records (h : s.InLine) {event : Event α} (hsound : s'.Sound)
    (htrace : s'.trace = s.trace ++ [event]) (hpopped : poppedEntries [event] = [])
    (hkept : processedEntries s.trace ++ processedEntries [event] =
      removedEntries s.trace ++ removedEntries [event] ++ s'.pc.succeeded.toList)
    (hcalls : CallsOldest s.trace event) (hjoinable : s'.joinable = s.joinable)
    (hfinished : s.pc = .finished → s'.pc = .finished) : s'.InLine := by
  refine ⟨hsound, ?_, ?_, ?_, fun hjoined => hfinished (h.joined (hjoinable ▸ hjoined))⟩
  · rw [htrace, poppedEntries_append, h.unpopped, hpopped, List.append_nil]
  · rw [htrace, processedEntries_append, removedEntries_append]
    exact hkept
  · rw [htrace]
    exact History.always_append_singleton.mpr ⟨h.calls, hcalls⟩

theorem notified (h : s.InLine) : s.notified.InLine := by
  unfold TaskQueue.notified
  split
  case h_1 hpc =>
    exact h.quiet (by simpa [TaskQueue.notified, hpc] using h.toSound.notified) rfl
      (by rw [hpc]; rfl) rfl (by simp [hpc])
  case h_2 => exact h

theorem goesTo [DecidableEq T] (h : s.InLine) (t : T) (caller : Caller) :
    (s.goesTo t caller).InLine :=
  h.quiet (h.toSound.goesTo t caller) rfl rfl rfl id

theorem push (h : s.InLine) (task : α) : (s.push task).InLine := by
  refine h.records (h.toSound.push task) rfl rfl ?_ trivial rfl id
  simpa [processedEntries, removedEntries, TaskQueue.push] using h.kept

theorem starts (h : s.InLine) {e : Entry α} (hpc : s.pc = .process e)
    (hsound : Sound { s with pc := .processing e, trace := s.trace ++ [.started e] }) :
    InLine { s with pc := .processing e, trace := s.trace ++ [.started e] } := by
  have hkept : processedEntries s.trace = removedEntries s.trace := by
    simpa [hpc, WorkerPc.succeeded] using h.kept
  have hhead := h.head_of_inHand (e := e) (by rw [hpc]; rfl)
  refine h.records hsound rfl rfl ?_ ⟨?_, hkept⟩ rfl (by simp [hpc])
  · simpa [processedEntries, removedEntries, WorkerPc.succeeded] using hkept
  · -- the copy is still the head of the queue
    obtain ⟨rest, hrest⟩ := List.head?_eq_some_iff.mp hhead
    rw [← h.removed_append_queue, hrest]
    exact ⟨rest, by simp⟩

theorem removes (h : s.InLine) {e e' : Entry α} {rest : List (Entry α)}
    (hpc : s.pc = .remove e true) (hqueue : s.taskQueue = e' :: rest)
    (hsound : Sound
      { s with pc := .unlock, taskQueue := rest, trace := s.trace ++ [.removed e'] }) :
    InLine { s with pc := .unlock, taskQueue := rest, trace := s.trace ++ [.removed e'] } := by
  obtain ⟨hhead, -⟩ := h.succeeded e (by rw [hpc]; rfl)
  obtain rfl : e' = e := by simpa [hqueue] using hhead
  have hkept : processedEntries s.trace = removedEntries s.trace ++ [e'] := by
    simpa [hpc, WorkerPc.succeeded] using h.kept
  refine h.records hsound rfl rfl ?_ trivial rfl (by simp [hpc])
  simpa [processedEntries, removedEntries, WorkerPc.succeeded] using hkept

theorem work (h : s.InLine) (hsound : s'.Sound) (hworks : s.Works s') : s'.InLine := by
  cases hworks with
  | goesRound hpc | finishes hpc | locks hpc | sleeps hpc | reacquires hpc | drained hpc
  | keeps hpc | unlocks hpc | copies hpc | unlocksTask hpc =>
      exact h.quiet hsound rfl (by rw [hpc]; rfl) rfl (by simp [hpc])
  | @relocks e processed hpc =>
      exact h.quiet hsound rfl (by rw [hpc]; cases processed <;> rfl) rfl (by simp [hpc])
  | starts hpc => exact h.starts hpc hsound
  | removes hpc hqueue => exact h.removes hpc hqueue hsound
  | underflows => exact absurd hsound.defined (by simp)

theorem returns (h : s.InLine) {e : Entry α} {processed : Bool} (hpc : s.pc = .processing e)
    (hsound : Sound
      { s with pc := .relock e processed, trace := s.trace ++ [.done e processed] }) :
    InLine { s with pc := .relock e processed, trace := s.trace ++ [.done e processed] } := by
  have hkept : processedEntries s.trace = removedEntries s.trace := by
    simpa [hpc, WorkerPc.succeeded] using h.kept
  refine h.records hsound rfl rfl ?_ trivial rfl (by simp [hpc])
  rw [hkept]
  cases processed <;> simp [processedEntries, removedEntries, WorkerPc.succeeded]

theorem step [DecidableEq T] {a : Action α T} (h : s.InLine) (hpop : s.NoPop a)
    (hsteps : s.Steps a s') : s'.InLine := by
  have hsound := h.toSound.step (h.undisturbed hpop hsteps) hsteps
  cases hsteps with
  | push => exact (h.push _).goesTo _ _
  | size => exact h.goesTo _ _
  | pop => exact hpop.elim
  | stop => exact h.quiet hsound rfl rfl rfl id
  | notify => exact h.notified.goesTo _ _
  | joined _ hpc => exact ⟨hsound, h.unpopped, h.kept, h.calls, fun _ => hpc⟩
  | work hworks => exact h.work hsound hworks
  | returns hpc => exact h.returns hpc hsound
  | wake => exact h.notified

theorem of_reachable [DecidableEq T] (h : Runs.Reachable TaskQueue.step NoPop TaskQueue.init s) :
    s.InLine :=
  h.invariant InLine .init fun _ _ _ hinv hpop hstep => hinv.step hpop (step_cases hstep).2

end InLine

/-! ### After `stopQueue` -/

variable [DecidableEq T]

/-- Thread `t` returns from `stopQueue` in this step. -/
def StopReturns (s : TaskQueue α T) (t : T) (s' : TaskQueue α T) : Prop :=
  (s.callers t = .stopped ∨ s.callers t = .joining) ∧ s.step (.resume t) = some s' ∧
    s'.callers t = .idle

theorem InLine.finished_of_stopReturns (h : s.InLine) {t : T} (hreturns : s.StopReturns t s') :
    s'.pc = .finished := by
  obtain ⟨hcaller, hstep, hidle⟩ := hreturns
  rw [TaskQueue.step, if_neg (by simp [h.defined]), next, resumes] at hstep
  rcases hcaller with hstopped | hjoining
  · -- the worker was joined before
    simp only [hstopped, Option.some.injEq] at hstep
    subst hstep
    have hjoined : s.joinable = false := by
      cases hjoinable : s.joinable <;> simp [TaskQueue.goesTo, hjoinable] at hidle ⊢
    simp [TaskQueue.goesTo, TaskQueue.notified, h.joined hjoined]
  · simp only [hjoining] at hstep
    split at hstep
    · cases hstep
      assumption
    · cases hstep

theorem Steps.finished {a : Action α T} (h : s.Steps a s') (hpop : s.NoPop a)
    (hpc : s.pc = .finished) :
    s'.pc = .finished ∧ startedEntries s'.trace = startedEntries s.trace := by
  have hnotified : s.notified = s := by simp [notified, hpc]
  cases h with
  | push => exact ⟨hpc, by simp [goesTo, TaskQueue.push, startedEntries]⟩
  | size | stop | joined => exact ⟨hpc, rfl⟩
  | pop => exact hpop.elim
  | notify | wake =>
      rw [hnotified]
      exact ⟨hpc, rfl⟩
  | work hworks => cases hworks <;> simp_all
  | returns hprocessing => simp [hpc] at hprocessing

theorem finished_of_finished (h : Runs.Reachable step NoPop s u) (hpc : s.pc = .finished) :
    u.pc = .finished ∧ startedEntries u.trace = startedEntries s.trace :=
  h.invariant (fun u => u.pc = .finished ∧ startedEntries u.trace = startedEntries s.trace)
    ⟨hpc, rfl⟩ fun _ _ _ hinv hpop hstep =>
      have hkept := (step_cases hstep).2.finished hpop hinv.1
      ⟨hkept.1, hkept.2.trans hinv.2⟩

theorem Steps.trace_of_resume {t : T} (h : s.Steps (.resume t) s') : s'.trace = s.trace := by
  cases h with
  | notify => exact notified_trace s
  | joined => rfl

/-- The tasks are removed in the order of the pushes and only when they are processed, the function
is called with the oldest one, and not at all after a return from `stopQueue`. -/
structure KeepsOrder (s : TaskQueue α T) : Prop where
  defined : s.undefined = false
  removed_append_queue : removedEntries s.trace ++ s.taskQueue = pushedEntries s.trace
  processed : processedEntries s.trace = removedEntries s.trace ++ s.pc.succeeded.toList
  calls : History.Always CallsOldest s.trace
  stopped : ∀ t s' u, s.StopReturns t s' → Runs.Reachable step NoPop s' u →
    u.pc = .finished ∧ startedEntries u.trace = startedEntries s.trace

theorem keeps_order (h : Runs.Reachable step NoPop (init : TaskQueue α T) s) : s.KeepsOrder := by
  have hline := InLine.of_reachable h
  refine ⟨hline.defined, hline.removed_append_queue, hline.kept, hline.calls, ?_⟩
  intro t s' u hreturns hu
  have hfinished := hline.finished_of_stopReturns hreturns
  obtain ⟨hpc, hstarted⟩ := finished_of_finished hu hfinished
  rw [(step_cases hreturns.2.1).2.trace_of_resume] at hstarted
  exact ⟨hpc, hstarted⟩

/-- The first task fails once, the second is pushed meanwhile, and both are processed in order. -/
theorem keeps_order_retry : ∃ s : TaskQueue Nat Bool,
    startedEntries s.trace = [⟨0, 7⟩, ⟨0, 7⟩, ⟨1, 8⟩] ∧ s.joinable = false ∧ s.KeepsOrder := by
  have hrun : ∃ s : TaskQueue Nat Bool, Runs.Reachable step NoPop init s ∧
      startedEntries s.trace = [⟨0, 7⟩, ⟨0, 7⟩, ⟨1, 8⟩] ∧ s.joinable = false :=
    Runs.exists_reachable (List.flatten [List.replicate 3 .worker,
      [.pushToQueue false 7, .resume false], List.replicate 4 .worker,
      [.pushToQueue true 8, .resume true, .processed false], List.replicate 6 .worker, [.wakeWorker],
      List.replicate 4 .worker, [.processed true], List.replicate 6 .worker, [.wakeWorker],
      List.replicate 4 .worker, [.processed true, .stopQueue false], List.replicate 4 .worker,
      [.resume false, .resume false]]) (by decide +kernel)
  obtain ⟨s, hs, hstarted, hjoinable⟩ := hrun
  exact ⟨s, hstarted, hjoinable, keeps_order hs⟩

end TaskQueue

end Shapeware.TaskQueue2
