import Shapeware.MqMessage.Transport

/-!
# The transport comes to rest

As long as nothing new is sent, every step of the services leaves them with less to do, so they come
to rest: each worker sleeps or waits for room in a full queue, and each listen thread waits for a
message, waits for room, or has ended.
-/

namespace Shapeware.MqMessage

namespace TaskQueue

variable {α T : Type} {s s' : TaskQueue α T}

/-- Nobody has stopped the queue. -/
structure Running (s : TaskQueue α T) : Prop where
  run : s.runWorkerThread = true
  working : s.pc ≠ .finished
  callers : ∀ t, s.callers t = .idle ∨ ∃ retval, s.callers t = .pushed retval
  finite : {t | s.callers t ≠ .idle}.Finite

/-- The actions of a service that is not deactivated. -/
def KeepsRunning : Action α T → Prop
  | .stopQueue _ | .destroy _ => False
  | _ => True

theorem Running.init : (init : TaskQueue α T).Running where
  run := rfl
  working := nofun
  callers _ := .inl rfl
  finite := by simp [TaskQueue.init]

theorem notified_running (h : s.Running) : s.notified.Running := by
  unfold notified
  split
  case h_1 w hpc => exact ⟨h.run, nofun, h.callers, h.finite⟩
  case h_2 => exact h

theorem Running.work (h : s.Running) (hlock : s.Disciplined) (hworks : s.Works s') :
    s'.Running ∧ s'.callers = s.callers := by
  cases hworks with
  | finishes hpc hrun | leaves hpc hrun => exact absurd (h.run.symm.trans hrun) (by simp)
  | locks hpc | relocks hpc =>
      rw [hlock.lock_eq (by simp [hpc]) (by rw [hpc]; rfl)]
      exact ⟨⟨h.run, nofun, h.callers, h.finite⟩, rfl⟩
  | unlocksTask hpc | unlocksEmpty hpc =>
      rw [hlock.unlock_eq (by simp [hpc]) (by rw [hpc]; rfl)]
      exact ⟨⟨h.run, nofun, h.callers, h.finite⟩, rfl⟩
  | _ => exact ⟨⟨h.run, nofun, h.callers, h.finite⟩, rfl⟩

/-! ### What is left to do -/

def pcRank : WorkerPc α → Nat
  | .finished | .systemError | .wait .blocked => 0
  | .wait .block => 1
  | .wait .test => 2
  | .lock | .wait .relock => 3
  | .outer => 4
  | .unlockEmpty => 5
  | .take => 6
  | .inner => 7
  | .relock => 8
  | .processing _ => 14
  | .process _ => 15
  | .unlockTask _ => 16

def rank (s : TaskQueue α T) : Nat :=
  pcRank s.pc + (if s.taskPushed then 6 else 0) + 11 * s.taskQueue.length

theorem rank_work (hlock : s.Disciplined) (hworks : s.Works s') : s'.rank < s.rank := by
  cases hworks with
  | locks hpc | relocks hpc =>
      rw [hlock.lock_eq (by simp [hpc]) (by rw [hpc]; rfl)]
      simp [rank, pcRank, hpc]
  | unlocksTask hpc | unlocksEmpty hpc =>
      rw [hlock.unlock_eq (by simp [hpc]) (by rw [hpc]; rfl)]
      simp [rank, pcRank, hpc]
  | passes hpc hpushed => simp [rank, pcRank, hpc, hpushed]
  | takes hpc hqueue =>
      simp only [rank, pcRank, hpc, hqueue, List.length_cons]
      omega
  | _ => simp [rank, pcRank, *]

/-- A return from the processing function makes up for what it may have caused. -/
theorem rank_done {task : α} (hpc : s.pc = .processing task) (hwork : s.work = some s') :
    s'.rank + 6 = s.rank := by
  rw [work, hpc] at hwork
  cases hwork
  simp only [rank, pcRank, hpc]
  omega

theorem rank_notified : s.notified.rank ≤ s.rank + 3 := by
  unfold notified
  split
  case h_1 w hpc =>
    cases w with
    | blocked =>
        simp only [rank, pcRank, hpc, Wait.notified]
        omega
    | _ => simp [rank, pcRank, hpc, Wait.notified]
  case h_2 => omega

variable [DecidableEq T]

theorem Running.goesTo (h : s.Running) {t : T} {caller : Caller}
    (hcaller : caller = .idle ∨ ∃ retval, caller = .pushed retval) :
    (s.goesTo t caller).Running where
  run := h.run
  working := h.working
  callers u := by
    by_cases hut : u = t
    · simpa [TaskQueue.goesTo, hut] using hcaller
    · simpa [TaskQueue.goesTo, hut] using h.callers u
  finite := by
    refine (h.finite.insert t).subset fun u hu => ?_
    by_cases hut : u = t
    · exact .inl hut
    · exact .inr (by simpa [TaskQueue.goesTo, hut] using hu)

theorem resume_cases {t : T} (h : s.Running) (hstep : s.step (.resume t) = some s') :
    (∃ retval, s.callers t = .pushed retval) ∧ s' = s.notified.goesTo t .idle := by
  rw [step, resumes] at hstep
  obtain hcaller | ⟨retval, hcaller⟩ := h.callers t
  · simp [hcaller] at hstep
  · simp only [hcaller, Option.some.injEq] at hstep
    exact ⟨⟨retval, hcaller⟩, hstep.symm⟩

theorem push_cases {t : T} {task : α} (hstep : s.step (.pushToQueue t task) = some s') :
    ∃ retval, s' = (s.push task).goesTo t (.pushed retval) := by
  rw [step] at hstep
  split_ifs at hstep
  exact ⟨_, (Option.some.inj hstep).symm⟩

theorem Running.step {a : Action α T} (h : s.Running) (hlock : s.Disciplined)
    (hkeeps : KeepsRunning a) (hstep : s.step a = some s') : s'.Running := by
  cases a with
  | pushToQueue t task =>
      obtain ⟨retval, rfl⟩ := push_cases hstep
      have hpush : (s.push task).Running := ⟨h.run, h.working, h.callers, h.finite⟩
      exact hpush.goesTo (.inr ⟨retval, rfl⟩)
  | resume t =>
      obtain ⟨-, rfl⟩ := resume_cases h hstep
      exact (notified_running h).goesTo (.inl rfl)
  | worker => exact (h.work hlock (work_cases hstep)).1
  | wakeWorker =>
      cases hstep
      exact notified_running h
  | stopQueue | destroy => cases hkeeps

/-- The task queue of a service that is not deactivated. -/
theorem running_of_reachable
    (h : Runs.Reachable step (fun _ a => KeepsRunning a) (init : TaskQueue α T) s) : s.Running :=
  h.invariant_of_reachable Running Running.init fun _ _ _ hreachable hinv hkeeps hstep =>
    hinv.step (disciplined_awake hreachable).1 hkeeps hstep

end TaskQueue

namespace Transport

open TaskQueue (KeepsRunning)

variable {T : Type} [DecidableEq T] {s s' : Transport T} {a : TransportAction T} {x y : Side}

abbrev Reaches (s : Transport T) : Prop := Runs.Reachable step (fun _ _ => True) init s

/-- What the services do by themselves, apart from waking up without a notification. -/
def OwnStep (_ : Transport T) : TransportAction T → Prop
  | .sendMessage .. | .wakeWorker _ => False
  | .resume .. | .worker _ | .listen _ => True

/-- Nothing more happens until a message is sent. -/
def Settled (s : Transport T) : Prop := ∀ a, s.OwnStep a → s.step a = none

/-- A step leaves a task queue as it is, or is one of its steps. -/
def QueueGoes (queue queue' : TaskQueue (List UInt8) T) : Prop :=
  queue' = queue ∨ ∃ b, KeepsRunning b ∧ queue.step b = some queue'

/-- Only the worker, and the threads that notify it, go on by themselves. -/
theorem queue_of_step (hstep : s.step a = some s') (x : Side) :
    (s'.nodes x).toMqMessageQueue = (s.nodes x).toMqMessageQueue ∨
      ∃ b, (s.nodes x).toMqMessageQueue.step b = some (s'.nodes x).toMqMessageQueue ∧
        KeepsRunning b ∧ (s.OwnStep a → b = .worker ∨ ∃ t, b = .resume t) := by
  obtain ⟨y, node, hnodes, hqueue⟩ : ∃ y node, s'.nodes = Function.update s.nodes y node ∧
      (node.toMqMessageQueue = (s.nodes y).toMqMessageQueue ∨
        ∃ b, (s.nodes y).toMqMessageQueue.step b = some node.toMqMessageQueue ∧
          KeepsRunning b ∧ (s.OwnStep a → b = .worker ∨ ∃ t, b = .resume t)) := by
    cases step_cases hstep with
    | pushes hqueue | wakes hqueue => exact ⟨_, _, rfl, .inr ⟨_, hqueue, trivial, nofun⟩⟩
    | notifies hqueue => exact ⟨_, _, rfl, .inr ⟨_, hqueue, trivial, fun _ => .inr ⟨_, rfl⟩⟩⟩
    | works _ hqueue | fails _ _ hqueue _ | writes _ _ hqueue _ _ =>
        exact ⟨_, _, rfl, .inr ⟨_, hqueue, trivial, fun _ => .inl rfl⟩⟩
    | _ => exact ⟨_, _, rfl, .inl rfl⟩
  by_cases hxy : x = y
  · subst hxy
    simpa [hnodes] using hqueue
  · exact .inl (by simp [hnodes, hxy])

theorem queueGoes_of_step (hstep : s.step a = some s') (x : Side) :
    QueueGoes (s.nodes x).toMqMessageQueue (s'.nodes x).toMqMessageQueue := by
  refine (queue_of_step hstep x).imp_right ?_
  rintro ⟨b, hb, hkeeps, -⟩
  exact ⟨b, hkeeps, hb⟩

/-- The task queues take steps of their own. -/
theorem queue_reachable (h : s.Reaches) (x : Side) :
    Runs.Reachable TaskQueue.step (fun _ a => KeepsRunning a) .init
      (s.nodes x).toMqMessageQueue := by
  induction h with
  | refl => exact .refl
  | tail a _ _ hstep ih =>
      obtain heq | ⟨b, hkeeps, hb⟩ := queueGoes_of_step hstep x
      · rwa [heq]
      · exact .tail b ih hkeeps hb

end Transport

/-! ### Every step counts -/

def ListenPc.rank : ListenPc → Nat
  | .finished => 0
  | .read => 3
  | .open | .handle _ => 4
  | .brokenWrite => 5
  | .brokenConnect => 6

def SendPc.rank : SendPc → Nat
  | .connect => 1
  | .write => 0

variable {T : Type}

/-- The threads of `F` that are still to notify the worker. -/
def TaskQueue.notifying {α : Type} (F : Finset T) (s : TaskQueue α T) : Finset T :=
  F.filter fun t => s.callers t ≠ .idle

/-- A thread may wake the worker up, which takes three steps. -/
def Node.rank (F : Finset T) (node : Node T) : Nat :=
  node.toMqMessageQueue.rank + node.sending.rank + node.listen.rank
    + 4 * (node.toMqMessageQueue.notifying F).card

namespace Transport

/-- A message in a queue takes the listen thread at most three steps. -/
def rank (F : Finset T) (s : Transport T) : Nat :=
  ((s.nodes .left).rank F + 4 * (s.mqs .left).length) +
    ((s.nodes .right).rank F + 4 * (s.mqs .right).length)

variable {F : Finset T} {s s' : Transport T} {a : TransportAction T} {x : Side} {node : Node T}

theorem rank_set (hless : node.rank F < (s.nodes x).rank F) :
    (s.set x node).rank F < s.rank F := by
  cases x <;> simp [rank, set] <;> omega

theorem rank_append {w : Written} (hless : node.rank F + 4 < (s.nodes x).rank F) :
    (s.append x w node).rank F < s.rank F := by
  cases x <;> simp [rank, append, Side.other] <;> omega

theorem rank_take {message : List UInt8} {rest : List (List UInt8)}
    (hmq : s.mqs x = message :: rest) (hless : node.rank F < (s.nodes x).rank F + 4) :
    (s.take x rest node).rank F < s.rank F := by
  cases x <;> simp [rank, take, hmq] <;> omega

variable [DecidableEq T]

/-- A thread that notifies the worker is not to do it any more. -/
theorem rank_resume {queue queue' : TaskQueue (List UInt8) T} {t : T} (hrunning : queue.Running)
    (hF : ∀ t, t ∉ F → queue.callers t = .idle) (hstep : queue.step (.resume t) = some queue') :
    queue'.rank + 4 * (queue'.notifying F).card < queue.rank + 4 * (queue.notifying F).card := by
  obtain ⟨⟨retval, hcaller⟩, rfl⟩ := TaskQueue.resume_cases hrunning hstep
  have hmem : t ∈ queue.notifying F := by
    refine Finset.mem_filter.mpr ⟨?_, by simp [hcaller]⟩
    by_contra ht
    exact absurd (hcaller.symm.trans (hF t ht)) (by simp)
  have hless : (queue.notified.goesTo t .idle).notifying F = (queue.notifying F).erase t := by
    ext u
    by_cases hut : u = t <;> simp [TaskQueue.notifying, TaskQueue.goesTo, hut]
  have hcard := Finset.card_erase_add_one hmem
  have hrank : (queue.notified.goesTo t .idle).rank ≤ queue.rank + 3 := TaskQueue.rank_notified
  rw [hless]
  omega

theorem rank_of_step (hs : s.Reaches)
    (hF : ∀ x t, t ∉ F → (s.nodes x).toMqMessageQueue.callers t = .idle)
    (hown : s.OwnStep a) (hstep : s.step a = some s') : s'.rank F < s.rank F := by
  have hrunning : ∀ x, (s.nodes x).toMqMessageQueue.Running := fun x =>
    TaskQueue.running_of_reachable (queue_reachable hs x)
  have hlock : ∀ x, (s.nodes x).toMqMessageQueue.Disciplined := fun x =>
    (TaskQueue.disciplined_awake (queue_reachable hs x)).1
  have hnotifying : ∀ {x queue}, (s.nodes x).toMqMessageQueue.step .worker = some queue →
      queue.notifying F = (s.nodes x).toMqMessageQueue.notifying F := fun {x queue} hqueue => by
    rw [TaskQueue.notifying, TaskQueue.notifying,
      ((hrunning x).work (hlock x) (TaskQueue.work_cases hqueue)).2]
  cases step_cases hstep with
  | pushes | wakes => cases hown
  | @notifies x t queue hqueue =>
      refine rank_set ?_
      have hless := rank_resume (hrunning x) (hF x) hqueue
      simp only [Node.rank]
      omega
  | @works x queue _ hqueue =>
      refine rank_set ?_
      have hless := TaskQueue.rank_work (hlock x) (TaskQueue.work_cases hqueue)
      simp only [Node.rank, hnotifying hqueue]
      omega
  | connects _ hsending => exact rank_set (by simp [Node.rank, hsending, SendPc.rank])
  | @fails x task queue hpc hsending hqueue _ =>
      refine rank_set ?_
      have hdone := TaskQueue.rank_done hpc hqueue
      simp only [Node.rank, hnotifying hqueue, hsending, SendPc.rank]
      omega
  | @writes x task queue hpc hsending hqueue _ _ =>
      refine rank_append ?_
      have hdone := TaskQueue.rank_done hpc hqueue
      simp only [Node.rank, hnotifying hqueue, hsending, SendPc.rank]
      omega
  | opens hlisten | stops hlisten | handles hlisten | brokenConnects hlisten =>
      exact rank_set (by simp [Node.rank, hlisten, ListenPc.rank])
  | reads hlisten hmq | reopens hlisten hmq | breaks hlisten hmq =>
      refine rank_take hmq ?_
      simp only [Node.rank, hlisten, ListenPc.rank]
      omega
  | brokenWrites hlisten =>
      refine rank_append ?_
      simp only [Node.rank, hlisten, ListenPc.rank]
      omega

theorem idle_of_step (hs : s.Reaches)
    (hF : ∀ x t, t ∉ F → (s.nodes x).toMqMessageQueue.callers t = .idle)
    (hown : s.OwnStep a) (hstep : s.step a = some s') :
    ∀ x t, t ∉ F → (s'.nodes x).toMqMessageQueue.callers t = .idle := by
  intro x t ht
  have hrunning : (s.nodes x).toMqMessageQueue.Running :=
    TaskQueue.running_of_reachable (queue_reachable hs x)
  have hlock := (TaskQueue.disciplined_awake (queue_reachable hs x)).1
  obtain heq | ⟨b, hqueue, -, hb⟩ := queue_of_step hstep x
  · rw [heq]
    exact hF x t ht
  · obtain rfl | ⟨u, rfl⟩ := hb hown
    · rw [(hrunning.work hlock (TaskQueue.work_cases hqueue)).2]
      exact hF x t ht
    · obtain ⟨-, heq⟩ := TaskQueue.resume_cases hrunning hqueue
      by_cases htu : t = u
      · simp [heq, TaskQueue.goesTo, htu]
      · simpa [heq, TaskQueue.goesTo, htu] using hF x t ht

theorem exists_idle (hs : s.Reaches) : ∃ F : Finset T,
    ∀ x t, t ∉ F → (s.nodes x).toMqMessageQueue.callers t = .idle := by
  have hfinite : ∀ x, {t | (s.nodes x).toMqMessageQueue.callers t ≠ .idle}.Finite := fun x =>
    (TaskQueue.running_of_reachable (queue_reachable hs x)).finite
  refine ⟨(hfinite .left).toFinset ∪ (hfinite .right).toFinset, fun x t ht => ?_⟩
  simp only [Finset.mem_union, Set.Finite.mem_toFinset, Set.mem_ofPred_eq, not_or, not_not] at ht
  cases x with
  | left => exact ht.1
  | right => exact ht.2

/-- The services come to rest by steps of their own. -/
theorem leads_settled (hs : s.Reaches) : Runs.Leads step OwnStep s Settled := by
  obtain ⟨F, hF⟩ := exists_idle hs
  refine Runs.leads_of_rank (fun s => s.Reaches ∧
    ∀ x t, t ∉ F → (s.nodes x).toMqMessageQueue.callers t = .idle) (rank F) ?_ ⟨hs, hF⟩
  rintro s ⟨hs, hF⟩ hunsettled
  simp only [Settled, not_forall] at hunsettled
  obtain ⟨a, hown, hstep⟩ := hunsettled
  obtain ⟨s', hs'⟩ := Option.ne_none_iff_exists'.mp hstep
  exact ⟨a, s', hown, hs', ⟨.tail a hs trivial hs', idle_of_step hs hF hown hs'⟩,
    rank_of_step hs hF hown hs'⟩

end Transport

end Shapeware.MqMessage
