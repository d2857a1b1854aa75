import Shapeware.MqMessage.Settling

/-!
# What arrives at the other side

A task that fits is written to the queue of the other side, in the order of the tasks, and the listen
thread that reads it hands every message to the handler. Two kinds of messages do not get through: one
that does not fit is never written, and one without any bytes ends the thread that reads it, which
writes a message of its own before.
-/

namespace Shapeware.MqMessage

variable {T : Type}

def fits (message : List UInt8) : Bool := message.length ≤ msgSize

/-- The tasks among what was written to a queue. -/
def writtenTasks (written : List Written) : List (List UInt8) :=
  written.filterMap fun
    | .task message => some message
    | .broken => none

@[simp] theorem writtenTasks_append (written : List Written) (w : Written) :
    writtenTasks (written ++ [w]) = writtenTasks written ++ writtenTasks [w] :=
  List.filterMap_append

theorem map_message {written : List Written} (hbroken : .broken ∉ written) :
    written.map Written.message = writtenTasks written := by
  induction written with
  | nil => rfl
  | cons w written ih =>
      cases w with
      | task message => exact congrArg (message :: ·) (ih (by simpa using hbroken))
      | broken => exact absurd List.mem_cons_self hbroken

theorem broken_not_mem {written : List Written}
    (hlength : (writtenTasks written).length = written.length) : .broken ∉ written := by
  intro hmem
  have hless : (writtenTasks written).length < written.length :=
    List.length_filterMap_lt_length_iff_exists.mpr ⟨.broken, hmem, rfl⟩
  exact absurd hlength (Nat.ne_of_lt hless)

namespace ListenPc

/-- The message that was read but not handled yet. -/
def inHand : ListenPc → List (List UInt8)
  | .handle message => [message]
  | _ => []

/-- The listen thread has not met a message without any bytes. -/
def alive : ListenPc → Bool
  | .open | .read | .handle _ => true
  | .brokenConnect | .brokenWrite | .finished => false

end ListenPc

/-- One direction: from the tasks of the sender over its queue to the handler of the receiver. -/
structure Link (sender receiver : Node T) (mq : List (List UInt8)) (written : List Written) :
    Prop where
  server : sender.server = false
  run : sender.listen ≠ .finished → sender.runListenThread = true
  tasks : writtenTasks written = (doneTasks sender.toMqMessageQueue.trace).filter fits
  broken : .broken ∈ written ↔ sender.listen = .finished
  alive : receiver.listen.alive = true →
    receiver.received ++ receiver.listen.inHand ++ mq = written.map Written.message
  dead : receiver.listen.alive = false → .task [] ∈ written
  handled : ∀ message ∈ receiver.received ++ receiver.listen.inHand,
    message ≠ [] ∧ message.length ≤ msgSize
  fits : ∀ message ∈ mq, message.length ≤ msgSize

namespace Link

variable {sender sender' receiver receiver' : Node T} {mq rest : List (List UInt8)}
  {written : List Written} {message : List UInt8}

/-! ### The sender takes a step -/

theorem of_sender (h : Link sender receiver mq written) (hserver : sender'.server = sender.server)
    (hrun : sender'.runListenThread = sender.runListenThread)
    (hdone : doneTasks sender'.toMqMessageQueue.trace = doneTasks sender.toMqMessageQueue.trace)
    (hlisten : sender'.listen = .finished ↔ sender.listen = .finished) :
    Link sender' receiver mq written :=
  { h with
    server := hserver.trans h.server
    run := fun hnot => hrun.trans (h.run (mt hlisten.mpr hnot))
    tasks := h.tasks.trans (by rw [hdone])
    broken := h.broken.trans hlisten.symm }

/-- A task that does not fit is done, and nothing is written. -/
theorem fails (h : Link sender receiver mq written) (hserver : sender'.server = sender.server)
    (hrun : sender'.runListenThread = sender.runListenThread)
    (hdone : doneTasks sender'.toMqMessageQueue.trace =
      doneTasks sender.toMqMessageQueue.trace ++ [message])
    (hlisten : sender'.listen = sender.listen) (hlong : msgSize < message.length) :
    Link sender' receiver mq written :=
  { h with
    server := hserver.trans h.server
    run := fun hnot => hrun.trans (h.run (hlisten ▸ hnot))
    tasks := by
      rw [hdone, List.filter_append, h.tasks]
      simp [MqMessage.fits, hlong]
    broken := hlisten ▸ h.broken }

/-- What was written is under way, unless nobody reads it any more. -/
theorem append (h : Link sender receiver mq written) {w : Written}
    (hserver : sender'.server = sender.server)
    (hrun : sender'.listen ≠ .finished → sender'.runListenThread = true)
    (htasks : (doneTasks sender'.toMqMessageQueue.trace).filter MqMessage.fits =
      (doneTasks sender.toMqMessageQueue.trace).filter MqMessage.fits ++ writtenTasks [w])
    (hbroken : sender'.listen = .finished ↔ sender.listen = .finished ∨ w = .broken)
    (hfits : w.message.length ≤ msgSize) :
    Link sender' receiver (mq ++ [w.message]) (written ++ [w]) where
  server := hserver.trans h.server
  run := hrun
  tasks := by rw [writtenTasks_append, h.tasks, htasks]
  broken := by rw [List.mem_append, h.broken, List.mem_singleton, hbroken, @eq_comm _ w]
  alive halive := by rw [← List.append_assoc, h.alive halive, List.map_append, List.map_singleton]
  dead hdead := List.mem_append_left _ (h.dead hdead)
  handled := h.handled
  fits := by
    intro message hmem
    obtain hmem | hmem := List.mem_append.mp hmem
    · exact h.fits message hmem
    · exact (List.mem_singleton.mp hmem) ▸ hfits

/-! ### The receiver takes a step -/

theorem of_receiver (h : Link sender receiver mq written)
    (halive : receiver'.listen.alive = receiver.listen.alive)
    (hreceived : receiver'.received ++ receiver'.listen.inHand =
      receiver.received ++ receiver.listen.inHand) : Link sender receiver' mq written :=
  { h with
    alive := fun hlive => hreceived ▸ h.alive (halive ▸ hlive)
    dead := fun hdead => h.dead (halive ▸ hdead)
    handled := hreceived ▸ h.handled }

theorem reads (h : Link sender receiver (message :: rest) written)
    (hlisten : receiver.listen = .read) (hmessage : message ≠ []) :
    Link sender { receiver with listen := .handle message } rest written :=
  { h with
    alive := fun _ => by
      rw [← h.alive (by rw [hlisten]; rfl), hlisten]
      simp [ListenPc.inHand]
    dead := nofun
    handled := by
      intro m hm
      obtain hm | hm := List.mem_append.mp hm
      · exact h.handled m (List.mem_append_left _ hm)
      · obtain rfl := List.mem_singleton.mp hm
        exact ⟨hmessage, h.fits m List.mem_cons_self⟩
    fits := fun m hm => h.fits m (List.mem_cons_of_mem _ hm) }

theorem breaks (h : Link sender receiver ([] :: rest) written)
    (hlisten : receiver.listen = .read) :
    Link sender { receiver with listen := .brokenConnect } rest written :=
  { h with
    alive := nofun
    dead := fun _ => by
      have hmem : [] ∈ written.map Written.message := by
        rw [← h.alive (by rw [hlisten]; rfl)]
        simp
      obtain ⟨w, hw, hempty⟩ := List.mem_map.mp hmem
      cases w with
      | task message =>
          obtain rfl : message = [] := hempty
          exact hw
      | broken => exact absurd hempty (by decide +kernel)
    handled := by
      intro m hm
      refine h.handled m ?_
      rw [hlisten]
      exact hm
    fits := fun m hm => h.fits m (List.mem_cons_of_mem _ hm) }

end Link

namespace Transport

variable {s s' : Transport T} {a : TransportAction T} {x y : Side} {node : Node T}

/-- The direction in which `x` sends. -/
def Links (s : Transport T) (x : Side) : Prop :=
  Link (s.nodes x) (s.nodes x.other) (s.mqs x.other) (s.written x.other)

/-- A step of one side is seen in both directions. -/
theorem links_of_nodes (hnodes : s'.nodes = Function.update s.nodes y node)
    (hsends : Link node (s.nodes y.other) (s'.mqs y.other) (s'.written y.other))
    (hreceives : Link (s.nodes y.other) node (s'.mqs y) (s'.written y)) (x : Side) :
    s'.Links x := by
  obtain rfl | rfl := x.eq_or_eq_other y
  · simpa [Links, hnodes] using hsends
  · simpa [Links, hnodes] using hreceives

theorem links_set
    (hsends : Link node (s.nodes y.other) (s.mqs y.other) (s.written y.other))
    (hreceives : Link (s.nodes y.other) node (s.mqs y) (s.written y)) :
    ∀ x, (s.set y node).Links x :=
  links_of_nodes (s := s) rfl hsends hreceives

theorem links_append {w : Written}
    (hsends : Link node (s.nodes y.other) (s.mqs y.other ++ [w.message]) (s.written y.other ++ [w]))
    (hreceives : Link (s.nodes y.other) node (s.mqs y) (s.written y)) :
    ∀ x, (s.append y w node).Links x := by
  refine links_of_nodes (s := s) rfl ?_ ?_
  · simpa [append] using hsends
  · simpa [append, y.other_ne.symm] using hreceives

theorem links_take {rest : List (List UInt8)}
    (hsends : Link node (s.nodes y.other) (s.mqs y.other) (s.written y.other))
    (hreceives : Link (s.nodes y.other) node rest (s.written y)) :
    ∀ x, (s.take y rest node).Links x := by
  refine links_of_nodes (s := s) rfl ?_ ?_
  · simpa [take] using hsends
  · simpa [take] using hreceives

variable [DecidableEq T]

theorem links_of_step (hs : s.Reaches) (h : ∀ x, s.Links x) (hstep : s.step a = some s') :
    ∀ x, s'.Links x := by
  have hreceives : ∀ y, Link (s.nodes y.other) (s.nodes y) (s.mqs y) (s.written y) := fun y => by
    simpa [Links] using h y.other
  -- the task queue takes a step, and no task is done
  have hqueued : ∀ {y queue}, doneTasks queue.trace = doneTasks (s.nodes y).toMqMessageQueue.trace →
      ∀ x, (s.set y { s.nodes y with toMqMessageQueue := queue }).Links x := fun {y _} hdone =>
    links_set ((h y).of_sender rfl rfl hdone Iff.rfl) ((hreceives y).of_receiver rfl rfl)
  cases step_cases hstep with
  | @pushes y t message queue hqueue =>
      obtain ⟨retval, rfl⟩ := TaskQueue.push_cases hqueue
      exact hqueued (by simp [TaskQueue.push, TaskQueue.goesTo, doneTasks])
  | @notifies y t queue hqueue =>
      obtain ⟨-, rfl⟩ :=
        TaskQueue.resume_cases (TaskQueue.running_of_reachable (queue_reachable hs y)) hqueue
      exact hqueued (by simp [TaskQueue.goesTo])
  | @wakes y queue hqueue =>
      obtain rfl := Option.some.inj hqueue
      exact hqueued (by simp)
  | @works y queue hidle hqueue =>
      exact hqueued ((TaskQueue.work_cases hqueue).doneTasks_eq
        (TaskQueue.disciplined_awake (queue_reachable hs y)).1 hidle)
  | @connects y =>
      exact links_set ((h y).of_sender rfl rfl rfl Iff.rfl) ((hreceives y).of_receiver rfl rfl)
  | @fails y task queue hpc hsending hqueue hlong =>
      refine links_set ((h y).fails rfl rfl ?_ rfl hlong) ((hreceives y).of_receiver rfl rfl)
      exact TaskQueue.doneTasks_of_processing hpc hqueue
  | @writes y task queue hpc hsending hqueue hfits hroom =>
      refine links_append ((h y).append rfl (h y).run ?_ ?_ hfits) ((hreceives y).of_receiver rfl rfl)
      · rw [TaskQueue.doneTasks_of_processing hpc hqueue, List.filter_append]
        simp [writtenTasks, MqMessage.fits, hfits]
      · simp
  | @opens y hlisten hrun =>
      refine links_set ((h y).of_sender rfl rfl rfl ?_) ((hreceives y).of_receiver ?_ ?_)
      · simp [hlisten]
      · rw [hlisten]; rfl
      · rw [hlisten]; rfl
  | @stops y hlisten hrun =>
      exact absurd ((h y).run (by simp [hlisten])) (by simp [hrun])
  | @reads y message rest hlisten hmq hmessage =>
      refine links_take ((h y).of_sender rfl rfl rfl ?_) ?_
      · simp [hlisten]
      · exact (hmq ▸ hreceives y).reads hlisten hmessage
  | @reopens y rest hlisten hmq hserver =>
      exact absurd (h y).server (by simp [hserver])
  | @breaks y rest hlisten hmq hserver =>
      refine links_take ((h y).of_sender rfl rfl rfl ?_) ?_
      · simp [hlisten]
      · exact (hmq ▸ hreceives y).breaks hlisten
  | @handles y message hlisten =>
      refine links_set ((h y).of_sender rfl rfl rfl ?_) ((hreceives y).of_receiver ?_ ?_)
      · simp [hlisten]
      · rw [hlisten]; rfl
      · simp [hlisten, ListenPc.inHand]
  | @brokenConnects y hlisten =>
      refine links_set ((h y).of_sender rfl rfl rfl ?_) ((hreceives y).of_receiver ?_ ?_)
      · simp [hlisten]
      · rw [hlisten]; rfl
      · rw [hlisten]; rfl
  | @brokenWrites y hlisten hroom =>
      refine links_append ((h y).append rfl ?_ ?_ ?_ brokenMsg_fits) ((hreceives y).of_receiver ?_ ?_)
      · simp
      · simp [writtenTasks]
      · simp
      · rw [hlisten]; rfl
      · rw [hlisten]; rfl

omit [DecidableEq T] in
theorem links_init (x : Side) : (init : Transport T).Links x := by
  constructor <;> simp [init, writtenTasks, doneTasks, TaskQueue.init, ListenPc.inHand,
    ListenPc.alive]

theorem links_of_reaches (hs : s.Reaches) : ∀ x, s.Links x :=
  hs.invariant_of_reachable (fun s => ∀ x, s.Links x) links_init fun _ _ _ hreach hlinks _ hstep =>
    links_of_step hreach hlinks hstep

/-! ### At rest -/

/-- The messages passed to `sendMessage` on one side, in the order of its critical sections. -/
def sent (s : Transport T) (x : Side) : List (List UInt8) :=
  pushedTasks (s.nodes x).toMqMessageQueue.trace

theorem notifies_none (hs : s.Reaches) (hsettled : s.Settled) (x : Side) (t : T) :
    ((s.nodes x).toMqMessageQueue.callers t).owesNotify = false := by
  obtain hidle | ⟨retval, hcaller⟩ :=
    (TaskQueue.running_of_reachable (queue_reachable hs x)).callers t
  · rw [hidle]
    rfl
  · have hnone := hsettled (.resume x t) trivial
    simp [step, queueStep, TaskQueue.step, TaskQueue.resumes, hcaller] at hnone

omit [DecidableEq T] in
theorem full_of_writeMq {w : Written} {done : Bool → Node T} (h : s.writeMq x w done = none) :
    maxMessages ≤ (s.mqs x.other).length := by
  rw [writeMq] at h
  split_ifs at h with hlong hroom
  exact Nat.le_of_not_lt hroom

omit [DecidableEq T] in
theorem blocked_of_work {queue : TaskQueue (List UInt8) T} (hrunning : queue.Running)
    (hlock : queue.Disciplined) (hwork : queue.work = none) : queue.pc = .wait .blocked := by
  cases hpc : queue.pc with
  | wait w =>
      cases w with
      | blocked => rfl
      | _ => simp [TaskQueue.work, hpc] at hwork
  | finished => exact absurd hpc hrunning.working
  | systemError => exact absurd hpc hlock.noError
  | _ => simp [TaskQueue.work, hpc] at hwork

/-- A worker at rest sleeps, or the queue that it writes to is full. -/
theorem blocked_or_full (hs : s.Reaches) (hsettled : s.Settled) (x : Side) :
    (s.nodes x).toMqMessageQueue.pc = .wait .blocked ∨ maxMessages ≤ (s.mqs x.other).length := by
  have hnone : s.works x = none := hsettled (.worker x) trivial
  rw [works] at hnone
  split at hnone
  · cases hnone
  · rename_i task hpc hsending
    have hwork : ∃ queue, (s.nodes x).toMqMessageQueue.work = some queue := by
      simp [TaskQueue.work, hpc]
    obtain ⟨queue, hwork⟩ := hwork
    rw [hwork, Option.bind_some] at hnone
    exact .inr (full_of_writeMq hnone)
  · have hreach := queue_reachable hs x
    exact .inl (blocked_of_work (TaskQueue.running_of_reachable hreach)
      (TaskQueue.disciplined_awake hreach).1 (Option.map_eq_none_iff.mp hnone))

/-- A worker at rest has done all its tasks, or the queue that it writes to is full. -/
theorem done_or_full (hs : s.Reaches) (hsettled : s.Settled) (x : Side) :
    doneTasks (s.nodes x).toMqMessageQueue.trace = s.sent x ∨
      maxMessages ≤ (s.mqs x.other).length := by
  refine (blocked_or_full hs hsettled x).imp_left fun hpc => ?_
  have hreach := queue_reachable hs x
  have hempty := ((TaskQueue.disciplined_awake hreach).2.idle_of_blocked hpc
    (notifies_none hs hsettled x)).1
  have hconserved := (TaskQueue.inOrder_of_reachable hreach).conserved
  have hreturns : TaskQueue.Returns _ := TaskQueue.returns_of_reachable hreach
  rw [TaskQueue.Returns] at hreturns
  simpa [sent, ← hreturns, hpc, hempty, WorkerPc.taken, WorkerPc.processed] using hconserved

/-- A listen thread at rest waits for a message, has ended, or waits for room to say so. -/
theorem listen_cases_of_settled (hsettled : s.Settled) (x : Side) :
    (s.nodes x).listen = .read ∧ s.mqs x = [] ∨ (s.nodes x).listen = .finished ∨
      (s.nodes x).listen = .brokenWrite ∧ maxMessages ≤ (s.mqs x.other).length := by
  have hnone : s.listens x = none := hsettled (.listen x) trivial
  rw [listens] at hnone
  cases hlisten : (s.nodes x).listen with
  | read =>
      simp only [hlisten, readMq] at hnone
      split at hnone
      · exact .inl ⟨rfl, ‹_›⟩
      · cases hnone
  | brokenWrite =>
      simp only [hlisten] at hnone
      exact .inr (.inr ⟨rfl, full_of_writeMq hnone⟩)
  | finished => exact .inr (.inl rfl)
  | _ => simp [hlisten] at hnone

/-! ### What arrives -/

/-- The handler of the other side has got all that was sent, and the listen thread is still running. -/
def Delivers (s : Transport T) (x : Side) : Prop :=
  (s.nodes x.other).received = s.sent x ∧ (s.nodes x.other).listen ≠ .finished

/-- All that was sent fits and is not empty, and nothing empty was sent the other way. -/
def Carried (s : Transport T) (x : Side) : Prop :=
  (∀ message ∈ s.sent x, message ≠ [] ∧ message.length ≤ msgSize) ∧ [] ∉ s.sent x.other

/-- The tasks that are done are a beginning of what was sent. -/
theorem done_prefix_sent (hs : s.Reaches) (x : Side) :
    doneTasks (s.nodes x).toMqMessageQueue.trace <+: s.sent x := by
  have hreach := queue_reachable hs x
  have hreturns : TaskQueue.Returns _ := TaskQueue.returns_of_reachable hreach
  rw [sent, ← (TaskQueue.inOrder_of_reachable hreach).conserved, ← hreturns, List.append_assoc]
  exact List.prefix_append _ _

theorem mem_sent_of_written (hs : s.Reaches) {message : List UInt8}
    (hmem : .task message ∈ s.written x.other) : message ∈ s.sent x := by
  have htask : message ∈ writtenTasks (s.written x.other) :=
    List.mem_filterMap.mpr ⟨_, hmem, rfl⟩
  rw [(links_of_reaches hs x).tasks] at htask
  exact (done_prefix_sent hs x).subset (List.mem_filter.mp htask).1

/-- Only an empty message ends the thread that reads it. -/
theorem alive_of_not_mem (hs : s.Reaches) (hempty : [] ∉ s.sent x) :
    (s.nodes x.other).listen.alive = true := by
  by_contra hdead
  exact hempty (mem_sent_of_written hs ((links_of_reaches hs x).dead (eq_false_of_ne_true hdead)))

omit [DecidableEq T] in
theorem not_finished_of_alive {pc : ListenPc} (halive : pc.alive = true) : pc ≠ .finished := by
  rintro rfl
  cases halive

/-- At rest, a thread that has not met an empty message has read all messages. -/
theorem read_of_alive (hsettled : s.Settled) (halive : (s.nodes x).listen.alive = true) :
    (s.nodes x).listen = .read ∧ s.mqs x = [] := by
  obtain hread | hfinished | ⟨hwrite, -⟩ := listen_cases_of_settled hsettled x
  · exact hread
  · exact absurd hfinished (not_finished_of_alive halive)
  · rw [hwrite] at halive
    cases halive

/-- At rest, the handler has got all that was written to the queue of a thread that is alive. -/
theorem received_eq (hs : s.Reaches) (hsettled : s.Settled)
    (halive : (s.nodes x.other).listen.alive = true) :
    (s.nodes x.other).received = (s.written x.other).map Written.message := by
  obtain ⟨hread, hmq⟩ := read_of_alive hsettled halive
  rw [← (links_of_reaches hs x).alive halive, hread, hmq]
  simp [ListenPc.inHand]

/-- At rest, all tasks are done if the other thread is alive. -/
theorem done_eq (hs : s.Reaches) (hsettled : s.Settled)
    (halive : (s.nodes x.other).listen.alive = true) :
    doneTasks (s.nodes x).toMqMessageQueue.trace = s.sent x := by
  refine (done_or_full hs hsettled x).resolve_right fun hfull => ?_
  rw [(read_of_alive hsettled halive).2] at hfull
  exact absurd hfull (by decide)

theorem writtenTasks_eq (hs : s.Reaches) (hsettled : s.Settled)
    (halive : (s.nodes x.other).listen.alive = true) :
    writtenTasks (s.written x.other) = (s.sent x).filter fits := by
  rw [(links_of_reaches hs x).tasks, done_eq hs hsettled halive]

/-- At rest, a thread is only alive if nothing empty was sent to it. -/
theorem not_mem_of_alive (hs : s.Reaches) (hsettled : s.Settled)
    (halive : (s.nodes x.other).listen.alive = true) : [] ∉ s.sent x := by
  intro hempty
  have htask : [] ∈ writtenTasks (s.written x.other) := by
    rw [writtenTasks_eq hs hsettled halive]
    exact List.mem_filter.mpr ⟨hempty, rfl⟩
  obtain ⟨w, hw, htask⟩ := List.mem_filterMap.mp htask
  have hmessage : w.message = [] := by
    cases w with
    | task message => exact Option.some.inj htask
    | broken => cases htask
  have hreceived : [] ∈ (s.nodes x.other).received := by
    rw [received_eq hs hsettled halive]
    exact List.mem_map.mpr ⟨w, hw, hmessage⟩
  exact ((links_of_reaches hs x).handled [] (List.mem_append_left _ hreceived)).1 rfl

/-- The tasks that are done have been written, and nothing else. -/
theorem written_of_carried (hs : s.Reaches) (hcarried : s.Carried x) :
    (s.nodes x.other).listen.alive = true ∧ (s.written x.other).map Written.message =
      doneTasks (s.nodes x).toMqMessageQueue.trace := by
  have halive : (s.nodes x.other).listen.alive = true :=
    alive_of_not_mem hs fun hempty => (hcarried.1 [] hempty).1 rfl
  have hself : (s.nodes x).listen.alive = true := by
    simpa using alive_of_not_mem (x := x.other) hs hcarried.2
  have hbroken : .broken ∉ s.written x.other := by
    rw [(links_of_reaches hs x).broken]
    exact not_finished_of_alive hself
  refine ⟨halive, ?_⟩
  rw [map_message hbroken, (links_of_reaches hs x).tasks]
  refine List.filter_eq_self.mpr fun message hmem => ?_
  simpa [fits] using (hcarried.1 message ((done_prefix_sent hs x).subset hmem)).2

/-- At any time, what has arrived is a beginning of what was sent. -/
theorem received_prefix_sent (hs : s.Reaches) (hcarried : s.Carried x) :
    (s.nodes x.other).received <+: s.sent x ∧ (s.nodes x.other).listen ≠ .finished := by
  obtain ⟨halive, hwritten⟩ := written_of_carried hs hcarried
  refine ⟨?_, not_finished_of_alive halive⟩
  have harriving := (links_of_reaches hs x).alive halive
  rw [hwritten, List.append_assoc] at harriving
  exact (List.prefix_append _ _).trans (harriving ▸ done_prefix_sent hs x)

theorem delivers_of_carried (hs : s.Reaches) (hsettled : s.Settled) (hcarried : s.Carried x) :
    s.Delivers x := by
  obtain ⟨halive, hwritten⟩ := written_of_carried hs hcarried
  refine ⟨?_, not_finished_of_alive halive⟩
  rw [received_eq hs hsettled halive, hwritten, done_eq hs hsettled halive]

theorem carried_of_delivers (hs : s.Reaches) (hsettled : s.Settled) (hdelivers : s.Delivers x) :
    s.Carried x := by
  have hlink := links_of_reaches hs x
  have hsent : ∀ message ∈ s.sent x, message ≠ [] ∧ message.length ≤ msgSize := by
    intro message hmem
    rw [← hdelivers.1] at hmem
    exact hlink.handled message (List.mem_append_left _ hmem)
  have halive : (s.nodes x.other).listen.alive = true :=
    alive_of_not_mem hs fun hempty => (hsent [] hempty).1 rfl
  have htasks : writtenTasks (s.written x.other) = s.sent x := by
    rw [writtenTasks_eq hs hsettled halive]
    exact List.filter_eq_self.mpr fun message hmem => by simpa [fits] using (hsent message hmem).2
  -- nothing else arrived, so the listen thread on this side has not ended
  have hlength : (writtenTasks (s.written x.other)).length = (s.written x.other).length := by
    rw [htasks, ← hdelivers.1, received_eq hs hsettled halive, List.length_map]
  have hrunning : (s.nodes x).listen ≠ .finished := by
    rw [Ne, ← hlink.broken]
    exact broken_not_mem hlength
  have hself : (s.nodes x).listen.alive = true := by
    obtain ⟨hread, -⟩ | hfinished | ⟨-, hfull⟩ := listen_cases_of_settled hsettled x
    · rw [hread]
      rfl
    · exact absurd hfinished hrunning
    · rw [(read_of_alive hsettled halive).2] at hfull
      exact absurd hfull (by decide)
  exact ⟨hsent, not_mem_of_alive hs hsettled (by simpa using hself)⟩

/-- **All that is sent arrives**, unless something sent does not fit or is empty, or something empty
was sent the other way: in order and at rest all of it, and the services come to rest by themselves. -/
theorem delivers_iff (hs : s.Reaches) :
    Runs.Leads step OwnStep s Settled ∧
    (∀ x, s.Carried x →
      (s.nodes x.other).received <+: s.sent x ∧ (s.nodes x.other).listen ≠ .finished) ∧
    (s.Settled → ∀ x, s.Delivers x ↔ s.Carried x) :=
  ⟨leads_settled hs, fun _ => received_prefix_sent hs, fun hsettled _ =>
    ⟨carried_of_delivers hs hsettled, delivers_of_carried hs hsettled⟩⟩

/-! ### A few messages -/

theorem sent_of_step (hs : s.Reaches) (hown : s.OwnStep a) (hstep : s.step a = some s') :
    s'.sent = s.sent := by
  funext x
  have hreach := queue_reachable hs x
  obtain heq | ⟨b, hqueue, -, hb⟩ := queue_of_step hstep x
  · rw [sent, heq, sent]
  · obtain rfl | ⟨t, rfl⟩ := hb hown
    · exact (TaskQueue.work_cases hqueue).pushedTasks_eq (TaskQueue.disciplined_awake hreach).1
    · obtain ⟨-, heq⟩ :=
        TaskQueue.resume_cases (TaskQueue.running_of_reachable hreach) hqueue
      simp [sent, heq, TaskQueue.goesTo]

/-- What was sent is still what was sent when the services have come to rest. -/
theorem exists_settled (hs : s.Reaches) :
    ∃ t : Transport T, t.Reaches ∧ t.Settled ∧ t.sent = s.sent := by
  obtain ⟨t, hrun, hsettled⟩ := leads_settled hs
  refine ⟨t, hs.trans (hrun.mono fun _ _ _ => trivial), hsettled, ?_⟩
  refine hrun.invariant_of_reachable (fun t => t.sent = s.sent) rfl
    fun t a t' hreach hsent hown hstep => ?_
  have ht : t.Reaches := hs.trans (hreach.mono fun _ _ _ => trivial)
  exact (sent_of_step ht hown hstep).trans hsent

/-- The services come to rest after some calls of `sendMessage`. -/
theorem exists_sent (left right : List (List UInt8)) (as : List (TransportAction Unit))
    (hrun : ∃ s ∈ Runs.run step (fun _ _ => True) init as,
      s.sent .left = left ∧ s.sent .right = right) :
    ∃ s : Transport Unit, s.Reaches ∧ s.Settled ∧ s.sent .left = left ∧ s.sent .right = right := by
  obtain ⟨s, hs, hleft, hright⟩ := Runs.exists_reachable as hrun
  obtain ⟨t, ht, hsettled, hsent⟩ := exists_settled hs
  exact ⟨t, ht, hsettled, by rw [hsent, hleft], by rw [hsent, hright]⟩

/-- Three messages one way and two the other way arrive. -/
theorem delivers_iff_both : ∃ s : Transport Unit, s.Settled ∧
    s.sent .left = [[1], [0, 2], [1]] ∧ s.sent .right = [[3, 4, 5], [6]] ∧
    (s.nodes .right).received = s.sent .left ∧ (s.nodes .left).received = s.sent .right := by
  obtain ⟨s, hs, hsettled, hleft, hright⟩ := exists_sent [[1], [0, 2], [1]] [[3, 4, 5], [6]]
    [.sendMessage .left () [1], .resume .left (), .sendMessage .right () [3, 4, 5],
      .sendMessage .left () [0, 2], .resume .left (), .resume .right (),
      .sendMessage .right () [6], .sendMessage .left () [1]]
    ⟨_, rfl, by decide, by decide⟩
  have hcarried (x : Side) : s.Carried x := by
    cases x <;> rw [Carried, Side.other, hleft, hright] <;> decide
  have hdelivers := (delivers_iff hs).2.2 hsettled
  exact ⟨s, hsettled, hleft, hright, ((hdelivers .left).mpr (hcarried .left)).1,
    ((hdelivers .right).mpr (hcarried .right)).1⟩

/-- A message without any bytes does not arrive. -/
theorem not_forall_delivers : ¬ ∀ s : Transport Unit, s.Reaches → s.Settled → ∀ x, s.Delivers x := by
  intro hall
  obtain ⟨s, hs, hsettled, hleft, -⟩ := exists_sent [[]] []
    [.sendMessage .left () []] ⟨_, rfl, rfl, rfl⟩
  have hcarried := carried_of_delivers hs hsettled (hall s hs hsettled .left)
  exact (hcarried.1 [] (by simp [hleft])).1 rfl

end Transport

end Shapeware.MqMessage
