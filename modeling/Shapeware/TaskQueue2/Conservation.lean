import Shapeware.TaskQueue2.Queue

/-!
# Where the tasks of the queue go

A task leaves the queue because it was processed or because `pop` returned it. The worker takes for
granted that the head it removes is the task it has processed, which `pop` can spoil while the task
is processed without the mutex.
-/

namespace Shapeware.TaskQueue2

variable {α T : Type}

/-- The entries that left the queue, in either way. -/
def leftEntries (trace : List (Event α)) : List (Entry α) :=
  trace.filterMap fun
    | .removed e | .popped e => some e
    | _ => none

def removedEntries (trace : List (Event α)) : List (Entry α) :=
  trace.filterMap fun
    | .removed e => some e
    | _ => none

def poppedEntries (trace : List (Event α)) : List (Entry α) :=
  trace.filterMap fun
    | .popped e => some e
    | _ => none

def processedEntries (trace : List (Event α)) : List (Entry α) :=
  trace.filterMap fun
    | .done e true => some e
    | _ => none

section Traces

variable (trace more : List (Event α))

theorem pushedEntries_append :
    pushedEntries (trace ++ more) = pushedEntries trace ++ pushedEntries more :=
  List.filterMap_append

theorem leftEntries_append :
    leftEntries (trace ++ more) = leftEntries trace ++ leftEntries more :=
  List.filterMap_append

theorem removedEntries_append :
    removedEntries (trace ++ more) = removedEntries trace ++ removedEntries more :=
  List.filterMap_append

theorem poppedEntries_append :
    poppedEntries (trace ++ more) = poppedEntries trace ++ poppedEntries more :=
  List.filterMap_append

theorem processedEntries_append :
    processedEntries (trace ++ more) = processedEntries trace ++ processedEntries more :=
  List.filterMap_append

end Traces

/-- Both records say the same of the entries. -/
structure SameEntries (trace trace' : List (Event α)) : Prop where
  pushed : pushedEntries trace' = pushedEntries trace
  left : leftEntries trace' = leftEntries trace
  removed : removedEntries trace' = removedEntries trace
  popped : poppedEntries trace' = poppedEntries trace
  processed : processedEntries trace' = processedEntries trace

namespace SameEntries

variable (trace : List (Event α)) (e : Entry α)

theorem refl : SameEntries trace trace := ⟨rfl, rfl, rfl, rfl, rfl⟩

theorem started : SameEntries trace (trace ++ [.started e]) := by
  constructor <;> exact List.filterMap_append.trans (List.append_nil _)

theorem failed : SameEntries trace (trace ++ [.done e false]) := by
  constructor <;> exact List.filterMap_append.trans (List.append_nil _)

end SameEntries

theorem mem_left_of_popped {trace : List (Event α)} {e : Entry α} (h : e ∈ poppedEntries trace) :
    e ∈ leftEntries trace := by
  obtain ⟨event, hevent, he⟩ := List.mem_filterMap.mp h
  refine List.mem_filterMap.mpr ⟨event, hevent, ?_⟩
  cases event with
  | popped e' => exact he
  | pushed | started | done | removed => cases he

/-- The task that the worker processes, or is about to. -/
def WorkerPc.inHand : WorkerPc α → Option (Entry α)
  | .unlockTask e | .process e | .processing e => some e
  | _ => none

/-- The task that the worker is about to remove. -/
def WorkerPc.succeeded : WorkerPc α → Option (Entry α)
  | .relock e true | .remove e true => some e
  | _ => none

namespace TaskQueue

variable {s s' : TaskQueue α T}

/-- Every task that left was processed or returned, never both, and nothing was asked of an empty
queue. -/
structure Conserves (s : TaskQueue α T) : Prop where
  defined : s.undefined = false
  conserved : leftEntries s.trace ++ s.taskQueue = pushedEntries s.trace
  nodup : (pushedEntries s.trace).Nodup
  processed : ∀ e ∈ removedEntries s.trace, e ∈ processedEntries s.trace
  returned : ∀ e ∈ poppedEntries s.trace, e ∉ processedEntries s.trace

/-- What makes `Conserves` last. -/
structure Sound (s : TaskQueue α T) : Prop extends Conserves s where
  numbered : (pushedEntries s.trace).map Entry.number = List.range (pushedEntries s.trace).length
  known : ∀ e ∈ processedEntries s.trace, e ∈ pushedEntries s.trace
  waiting : ∀ e ∈ s.taskQueue, e ∈ processedEntries s.trace → s.pc.succeeded = some e
  inHand : ∀ e, s.pc.inHand = some e →
    s.taskQueue.head? = some e ∨ e ∈ poppedEntries s.trace
  succeeded : ∀ e, s.pc.succeeded = some e →
    s.taskQueue.head? = some e ∧ e ∈ processedEntries s.trace

/-- The function returns `true` only for a task that `pop` has not taken meanwhile, and `pop` takes
neither a task that is processed already nor anything from an empty queue. -/
def Undisturbed (s : TaskQueue α T) : Action α T → Prop
  | .processed processed => processed = true → s.taskQueue.head? = s.pc.inHand
  | .pop _ => s.taskQueue ≠ [] ∧ s.pc.succeeded = none
  | _ => True

instance [DecidableEq α] (s : TaskQueue α T) (a : Action α T) : Decidable (s.Undisturbed a) :=
  match a with
  | .processed _ => inferInstanceAs (Decidable (_ → _))
  | .pop _ => inferInstanceAs (Decidable (_ ∧ _))
  | .pushToQueue _ _ | .size _ | .stopQueue _ | .resume _ | .worker | .wakeWorker => isTrue trivial

namespace Sound

theorem init : (init : TaskQueue α T).Sound where
  defined := rfl
  conserved := rfl
  nodup := .nil
  processed := by simp [TaskQueue.init, removedEntries]
  returned := by simp [TaskQueue.init, poppedEntries]
  numbered := rfl
  known := by simp [TaskQueue.init, processedEntries]
  waiting := by simp [TaskQueue.init]
  inHand := by simp [TaskQueue.init, WorkerPc.inHand]
  succeeded := by simp [TaskQueue.init, WorkerPc.succeeded]

theorem not_left (h : s.Sound) {e : Entry α} (he : e ∈ s.taskQueue) : e ∉ leftEntries s.trace := by
  have hnodup := h.nodup
  rw [← h.conserved] at hnodup
  exact fun hleft => (List.disjoint_of_nodup_append hnodup) hleft he

theorem quiet (h : s.Sound) (hundefined : s'.undefined = s.undefined)
    (hqueue : s'.taskQueue = s.taskQueue) (htrace : SameEntries s.trace s'.trace)
    (hhand : ∀ e, s'.pc.inHand = some e →
      s.pc.inHand = some e ∨ s.taskQueue.head? = some e)
    (hsucceeded : s'.pc.succeeded = s.pc.succeeded) : s'.Sound := by
  refine ⟨⟨?_, ?_, ?_, ?_, ?_⟩, ?_, ?_, ?_, ?_, ?_⟩
  · exact hundefined.trans h.defined
  · rw [htrace.left, htrace.pushed, hqueue]
    exact h.conserved
  · rw [htrace.pushed]
    exact h.nodup
  · rw [htrace.removed, htrace.processed]
    exact h.processed
  · rw [htrace.popped, htrace.processed]
    exact h.returned
  · rw [htrace.pushed]
    exact h.numbered
  · rw [htrace.processed, htrace.pushed]
    exact h.known
  · rw [htrace.processed, hqueue, hsucceeded]
    exact h.waiting
  · intro e he
    rw [htrace.popped, hqueue]
    exact (hhand e he).elim (h.inHand e) .inl
  · rw [htrace.processed, hqueue, hsucceeded]
    exact h.succeeded

theorem notified (h : s.Sound) : s.notified.Sound := by
  unfold TaskQueue.notified
  split
  case h_1 hpc => exact h.quiet rfl rfl (.refl _) (by simp [WorkerPc.inHand]) (by rw [hpc]; rfl)
  case h_2 => exact h

theorem push (h : s.Sound) (task : α) : (s.push task).Sound := by
  have hpushed : pushedEntries (s.push task).trace =
      pushedEntries s.trace ++ [⟨(pushedEntries s.trace).length, task⟩] := pushedEntries_append ..
  have hleft : leftEntries (s.push task).trace = leftEntries s.trace := by
    simp [TaskQueue.push, leftEntries]
  have hprocessed : processedEntries (s.push task).trace = processedEntries s.trace := by
    simp [TaskQueue.push, processedEntries]
  have hpopped : poppedEntries (s.push task).trace = poppedEntries s.trace := by
    simp [TaskQueue.push, poppedEntries]
  have hremoved : removedEntries (s.push task).trace = removedEntries s.trace := by
    simp [TaskQueue.push, removedEntries]
  have hnumbered : (pushedEntries (s.push task).trace).map Entry.number =
      List.range (pushedEntries (s.push task).trace).length := by
    simp [hpushed, h.numbered, List.range_succ]
  have hnodup : (pushedEntries (s.push task).trace).Nodup := by
    apply List.Nodup.of_map Entry.number
    rw [hnumbered]
    exact List.nodup_range
  have hhead : ∀ e, s.taskQueue.head? = some e → (s.push task).taskQueue.head? = some e := by
    intro e he
    simp [TaskQueue.push, List.head?_append, he]
  refine ⟨⟨h.defined, ?_, hnodup, ?_, ?_⟩, hnumbered, ?_, ?_, ?_, ?_⟩
  · calc
      _ = leftEntries s.trace ++ s.taskQueue ++ [⟨(pushedEntries s.trace).length, task⟩] := by
        rw [hleft, List.append_assoc]
        rfl
      _ = _ := by rw [h.conserved, hpushed]
  · rw [hremoved, hprocessed]
    exact h.processed
  · rw [hpopped, hprocessed]
    exact h.returned
  · rw [hprocessed, hpushed]
    exact fun e he => List.mem_append_left _ (h.known e he)
  · rw [hprocessed]
    intro e he hdone
    obtain hold | hnew := List.mem_append.mp he
    · exact h.waiting e hold hdone
    · -- nothing is known yet of the entry that was just pushed
      rw [hpushed, List.nodup_append] at hnodup
      exact absurd rfl (hnodup.2.2 e (h.known e hdone) e hnew)
  · rw [hpopped]
    exact fun e he => (h.inHand e he).imp_left (hhead e)
  · rw [hprocessed]
    exact fun e he => (h.succeeded e he).imp_left (hhead e)

theorem goesTo [DecidableEq T] (h : s.Sound) (t : T) (caller : Caller) :
    (s.goesTo t caller).Sound :=
  h.quiet rfl rfl (.refl _) (fun _ he => .inl he) rfl

theorem pop (h : s.Sound) (hqueue : s.taskQueue ≠ []) (hpc : s.pc.succeeded = none) :
    s.pop.Sound := by
  obtain ⟨e, rest, hrest⟩ := List.exists_cons_of_ne_nil hqueue
  have hconserved := h.conserved
  have hin : e ∈ s.taskQueue := by simp [hrest]
  have hnot : e ∉ processedEntries s.trace := fun hdone => by
    simpa [hpc] using h.waiting e hin hdone
  simp only [TaskQueue.pop, hrest]
  refine ⟨⟨h.defined, ?_, ?_, ?_, ?_⟩, ?_, ?_, ?_, ?_, ?_⟩
  · simpa [leftEntries_append, pushedEntries_append, leftEntries, pushedEntries, hrest]
      using hconserved
  · simpa [pushedEntries] using h.nodup
  · simpa [removedEntries, processedEntries] using h.processed
  · intro e' he'
    simp only [poppedEntries_append, processedEntries_append, List.mem_append] at he' ⊢
    obtain hold | hnew := he'
    · simpa [processedEntries] using h.returned e' hold
    · obtain rfl : e' = e := by simpa [poppedEntries] using hnew
      simpa [processedEntries] using hnot
  · simpa [pushedEntries] using h.numbered
  · simpa [pushedEntries, processedEntries] using h.known
  · intro e' he' hdone
    exact h.waiting e' (by simp [hrest, he']) (by simpa [processedEntries] using hdone)
  · intro e' he'
    right
    rw [poppedEntries_append]
    obtain hhead | hold := h.inHand e' he'
    · obtain rfl : e = e' := by simpa [hrest] using hhead
      exact List.mem_append_right _ (by simp [poppedEntries])
    · exact List.mem_append_left _ hold
  · simp [hpc]

theorem returns (h : s.Sound) {e : Entry α} {processed : Bool} (hpc : s.pc = .processing e)
    (hhead : processed = true → s.taskQueue.head? = some e) :
    Sound { s with pc := .relock e processed, trace := s.trace ++ [.done e processed] } := by
  cases processed with
  | false =>
      exact h.quiet rfl rfl (.failed _ _) (by simp [WorkerPc.inHand]) (by rw [hpc]; rfl)
  | true =>
      have hfirst := hhead rfl
      have hin : e ∈ s.taskQueue := List.mem_of_mem_head? hfirst
      have hdone : processedEntries (s.trace ++ [.done e true]) = processedEntries s.trace ++ [e] :=
        processedEntries_append ..
      refine ⟨⟨h.defined, ?_, ?_, ?_, ?_⟩, ?_, ?_, ?_, ?_, ?_⟩
      · simpa [leftEntries, pushedEntries] using h.conserved
      · simpa [pushedEntries] using h.nodup
      · intro e' he'
        rw [hdone]
        exact List.mem_append_left _ (h.processed e' (by simpa [removedEntries] using he'))
      · intro e' he'
        have hold : e' ∈ poppedEntries s.trace := by simpa [poppedEntries] using he'
        rw [hdone, List.mem_append, List.mem_singleton, not_or]
        refine ⟨h.returned e' hold, ?_⟩
        rintro rfl
        exact h.not_left hin (mem_left_of_popped hold)
      · simpa [pushedEntries] using h.numbered
      · intro e' he'
        have hknown : e' ∈ pushedEntries s.trace := by
          rw [hdone, List.mem_append, List.mem_singleton] at he'
          obtain hold | rfl := he'
          · exact h.known e' hold
          · rw [← h.conserved]
            exact List.mem_append_right _ hin
        simpa [pushedEntries] using hknown
      · intro e' he' hnow
        rw [hdone, List.mem_append, List.mem_singleton] at hnow
        obtain hold | rfl := hnow
        · exact absurd (h.waiting e' he' hold) (by simp [hpc, WorkerPc.succeeded])
        · rfl
      · simp [WorkerPc.inHand]
      · intro e' he'
        obtain rfl : e = e' := by simpa [WorkerPc.succeeded] using he'
        exact ⟨hfirst, by simp [hdone]⟩

theorem removes (h : s.Sound) {e e' : Entry α} {rest : List (Entry α)}
    (hpc : s.pc = .remove e true) (hqueue : s.taskQueue = e' :: rest) :
    Sound { s with pc := .unlock, taskQueue := rest, trace := s.trace ++ [.removed e'] } := by
  obtain ⟨hhead, hdone⟩ := h.succeeded e (by rw [hpc]; rfl)
  obtain rfl : e' = e := by simpa [hqueue] using hhead
  have hconserved := h.conserved
  have hnodup := h.nodup
  rw [hqueue] at hconserved
  refine ⟨⟨h.defined, ?_, ?_, ?_, ?_⟩, ?_, ?_, ?_, ?_, ?_⟩
  · simpa [leftEntries, pushedEntries] using hconserved
  · simpa [pushedEntries] using hnodup
  · intro e hremoved
    rw [removedEntries_append, List.mem_append] at hremoved
    have hprocessed : e ∈ processedEntries s.trace := by
      obtain hold | hnew := hremoved
      · exact h.processed e hold
      · obtain rfl : e = e' := by simpa [removedEntries] using hnew
        exact hdone
    simpa [processedEntries] using hprocessed
  · simpa [poppedEntries, processedEntries] using h.returned
  · simpa [pushedEntries] using h.numbered
  · simpa [pushedEntries, processedEntries] using h.known
  · intro e he hprocessed
    have hsame := h.waiting e (by simp [hqueue, he]) (by simpa [processedEntries] using hprocessed)
    obtain rfl : e' = e := by simpa [hpc, WorkerPc.succeeded] using hsame
    rw [← hconserved, List.nodup_append, List.nodup_cons] at hnodup
    exact absurd he hnodup.2.1.1
  · simp [WorkerPc.inHand]
  · simp [WorkerPc.succeeded]

theorem work (h : s.Sound) (hworks : s.Works s') : s'.Sound := by
  cases hworks with
  | goesRound hpc | finishes hpc | locks hpc | sleeps hpc | reacquires hpc | drained hpc
  | keeps hpc | unlocks hpc =>
      exact h.quiet rfl rfl (.refl _) (by simp [WorkerPc.inHand]) (by rw [hpc]; rfl)
  | copies hpc hqueue =>
      refine h.quiet rfl rfl (.refl _) (fun e he => .inr ?_) (by rw [hpc]; rfl)
      simpa [WorkerPc.inHand, hqueue] using he
  | unlocksTask hpc =>
      exact h.quiet rfl rfl (.refl _) (by simp [WorkerPc.inHand, hpc]) (by rw [hpc]; rfl)
  | relocks hpc =>
      refine h.quiet rfl rfl (.refl _) (by simp [WorkerPc.inHand]) ?_
      rw [hpc]
      cases ‹Bool› <;> rfl
  | starts hpc =>
      exact h.quiet rfl rfl (.started _ _) (by simp [WorkerPc.inHand, hpc]) (by rw [hpc]; rfl)
  | removes hpc hqueue => exact h.removes hpc hqueue
  | underflows hpc hqueue =>
      have hhead := (h.succeeded _ (by rw [hpc]; rfl)).1
      simp [hqueue] at hhead

theorem step [DecidableEq T] {a : Action α T} (h : s.Sound) (hcond : s.Undisturbed a)
    (hsteps : s.Steps a s') : s'.Sound := by
  cases hsteps with
  | push => exact (h.push _).goesTo _ _
  | size => exact h.goesTo _ _
  | pop => exact (h.pop hcond.1 hcond.2).goesTo _ _
  | stop => exact h.quiet rfl rfl (.refl _) (fun _ he => .inl he) rfl
  | notify => exact h.notified.goesTo _ _
  | joined => exact h.quiet rfl rfl (.refl _) (fun _ he => .inl he) rfl
  | work hworks => exact h.work hworks
  | @returns e processed hpc =>
      refine h.returns hpc fun htrue => ?_
      rw [hcond htrue, hpc]
      rfl
  | wake => exact h.notified

end Sound

/-! ### What the race breaks -/

/-- A task was both processed and returned, or the queue was empty when a task was asked of it. -/
def Broken (s : TaskQueue α T) : Prop :=
  s.undefined = true ∨ ∃ e ∈ poppedEntries s.trace, e ∈ processedEntries s.trace

theorem Broken.not_conserves (h : s.Broken) : ¬ s.Conserves := by
  intro hconserves
  obtain hundefined | ⟨e, hpopped, hprocessed⟩ := h
  · exact absurd (hundefined.symm.trans hconserves.defined) (by simp)
  · exact hconserves.returned e hpopped hprocessed

theorem Works.trace_extends (h : s.Works s') : s.trace <+: s'.trace := by
  cases h <;> simp

theorem notified_trace (s : TaskQueue α T) : s.notified.trace = s.trace := by
  unfold notified
  split <;> rfl

variable [DecidableEq T] {a : Action α T}

theorem Steps.trace_extends (h : s.Steps a s') : s.trace <+: s'.trace := by
  cases h with
  | push | size | stop | joined | returns => simp [TaskQueue.push, goesTo]
  | pop =>
      rw [TaskQueue.pop]
      split <;> simp [goesTo]
  | notify | wake => simp [goesTo, notified_trace]
  | work hworks => exact hworks.trace_extends

theorem Broken.step (h : s.Broken) (hstep : s.step a = some s') : s'.Broken := by
  obtain ⟨hdefined, hsteps⟩ := step_cases hstep
  obtain hundefined | ⟨e, hpopped, hprocessed⟩ := h
  · exact absurd (hundefined.symm.trans hdefined) (by simp)
  · have hsub := hsteps.trace_extends.sublist
    exact .inr ⟨e, (hsub.filterMap _).subset hpopped, (hsub.filterMap _).subset hprocessed⟩

theorem broken_of_disturbed (h : s.Sound) (hstep : s.step a = some s') (hnot : ¬ s.Undisturbed a) :
    s'.Broken := by
  obtain ⟨-, hsteps⟩ := step_cases hstep
  cases hsteps with
  | push | size | stop | notify | joined | work | wake => exact absurd trivial hnot
  | pop =>
      rw [Undisturbed, not_and_or, not_not] at hnot
      obtain hempty | hpc := hnot
      · exact .inl (by simp [pop, hempty, goesTo])
      · obtain ⟨e, he⟩ := Option.ne_none_iff_exists'.mp hpc
        obtain ⟨hhead, hdone⟩ := h.succeeded e he
        obtain ⟨rest, hqueue⟩ := List.head?_eq_some_iff.mp hhead
        refine .inr ⟨e, ?_, ?_⟩
        · simp [pop, hqueue, goesTo, poppedEntries]
        · simpa [pop, hqueue, goesTo, processedEntries] using hdone
  | @returns e processed hpc =>
      rw [Undisturbed, Classical.not_imp] at hnot
      obtain ⟨rfl, hgone⟩ := hnot
      have hhand : s.pc.inHand = some e := by rw [hpc]; rfl
      have hpopped := (h.inHand e hhand).resolve_left (hhand ▸ hgone)
      refine .inr ⟨e, ?_, ?_⟩
      · rw [poppedEntries_append]
        exact List.mem_append_left _ hpopped
      · rw [processedEntries_append]
        exact List.mem_append_right _ (by simp [processedEntries])

/-- **Conservation, and when.** A run keeps every task accounted for exactly if no step of it lets
`pop` take a task that is processed, or lets the function succeed on a task that `pop` has taken. -/
theorem conserves_iff_undisturbed (h : Runs.Reachable step Reported (init : TaskQueue α T) s) :
    s.Conserves ↔ Runs.Reachable step (fun s a => s.Reported a ∧ s.Undisturbed a) init s := by
  have hsound : ∀ s : TaskQueue α T,
      Runs.Reachable step (fun s a => s.Reported a ∧ s.Undisturbed a) init s → s.Sound := by
    intro s hs
    exact hs.invariant Sound .init fun s a s' hinv hcond hstep =>
      hinv.step hcond.2 (step_cases hstep).2
  apply Runs.iff_reachable_of_breaks Broken h
  · exact fun s hs => (hsound s hs).toConserves
  · exact fun s a s' hs hstep hnot => broken_of_disturbed (hsound s hs) hstep hnot
  · exact fun s a s' hbroken hstep => hbroken.step hstep
  · exact fun s hbroken => hbroken.not_conserves

/-- One task is processed, and one is taken away while the worker sleeps. -/
theorem conserves_iff_undisturbed_overflow : ∃ s : TaskQueue Nat Bool,
    removedEntries s.trace = [⟨0, 7⟩] ∧ poppedEntries s.trace = [⟨1, 8⟩] ∧ s.Conserves := by
  have hrun : ∃ s : TaskQueue Nat Bool,
      Runs.Reachable step (fun s a => s.Reported a ∧ s.Undisturbed a) init s ∧
      removedEntries s.trace = [⟨0, 7⟩] ∧ poppedEntries s.trace = [⟨1, 8⟩] :=
    Runs.exists_reachable (List.flatten [List.replicate 3 .worker,
      [.pushToQueue false 7, .resume false], List.replicate 4 .worker, [.pushToQueue true 8,
      .processed true], List.replicate 3 .worker, [.resume true, .pop true]]) (by decide +kernel)
  obtain ⟨s, hs, hremoved, hpopped⟩ := hrun
  exact ⟨s, hremoved, hpopped, (conserves_iff_undisturbed (hs.mono fun _ _ h => h.1)).mpr hs⟩

/-- The first task is taken away while it is processed, and the worker removes the second. -/
theorem pop_loses_task :
    ¬ ∀ s : TaskQueue Nat Bool, Runs.Reachable step Reported init s → s.Conserves := by
  have hrun : ∃ s : TaskQueue Nat Bool, Runs.Reachable step Reported init s ∧
      removedEntries s.trace = [⟨1, 8⟩] ∧ processedEntries s.trace = [⟨0, 7⟩] :=
    Runs.exists_reachable (List.flatten [List.replicate 3 .worker,
      [.pushToQueue false 7, .resume false], List.replicate 4 .worker,
      [.pushToQueue true 8, .resume true, .pop true, .processed true],
      List.replicate 2 .worker]) (by decide +kernel)
  obtain ⟨s, hs, hremoved, hprocessed⟩ := hrun
  intro hall
  have hlost := (hall s hs).processed ⟨1, 8⟩ (by simp [hremoved])
  simp [hprocessed] at hlost

end TaskQueue

end Shapeware.TaskQueue2
