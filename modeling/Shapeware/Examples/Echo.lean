import Shapeware.Examples.MsgCmd
import Shapeware.Library.Inevitably
import Shapeware.MqMessage.Delivery

/-!
# The echo

`MsgCmd` and `MsgCmdEcho` are connected by their message services. The handler of `MsgCmdEcho` sends
every message back, on the listen thread that has read it, so that thread is also the only one that
pushes to the task queue of its service. `MsgCmd` sends what its command passes to it.
-/

namespace Shapeware.Examples

open MqMessage (Transport TransportAction Side Node TaskQueue ListenPc fits doneTasks)

/-- Where the handler of `MsgCmdEcho` is in its call of `sendMessage`. -/
inductive Handler
  | push
  | notify
  | leave
deriving DecidableEq

/-- `MsgCmd` is on the left side, `MsgCmdEcho` on the right one. -/
structure Echo (T : Type) where
  services : Transport T := .init
  handler : Handler := .push

inductive EchoAction (T : Type)
  | sendMessage (t : T) (message : List UInt8)
  /-- A thread of `MsgCmd` notifies the worker. -/
  | resume (t : T)
  | worker (x : Side)
  | wakeWorker (x : Side)
  | listen (x : Side)
deriving DecidableEq

namespace Echo

variable {T : Type}

/-- What the services do; `listener` is the thread that runs the handler of `MsgCmdEcho`. -/
def action (listener : T) (s : Echo T) : EchoAction T → TransportAction T
  | .sendMessage t message => .sendMessage .left t message
  | .resume t => .resume .left t
  | .worker x => .worker x
  | .wakeWorker x => .wakeWorker x
  | .listen .left => .listen .left
  | .listen .right =>
    match (s.services.nodes .right).listen, s.handler with
    | .handle message, .push => .sendMessage .right listener message
    | .handle _, .notify => .resume .right listener
    | _, _ => .listen .right

def nextHandler (s : Echo T) : EchoAction T → Handler
  | .listen .right =>
    match (s.services.nodes .right).listen, s.handler with
    | .handle _, .push => .notify
    | .handle _, .notify => .leave
    | _, _ => .push
  | _ => s.handler

variable [DecidableEq T]

def step (listener : T) (s : Echo T) (a : EchoAction T) : Option (Echo T) :=
  (s.services.step (s.action listener a)).map fun services => ⟨services, s.nextHandler a⟩

/-- What is passed to `sendMessage` by `MsgCmd` is what its command passes. -/
def FromCommand (par : StdString → StdString → StdString) (files : StdString → Option StdString)
    (_ : Echo T) : EchoAction T → Prop
  | .sendMessage _ message => ∃ params, (doCmd par files params).message = some message
  | _ => True

/-- What the services do by themselves, apart from waking up without a notification. -/
def OwnStep (_ : Echo T) : EchoAction T → Prop
  | .sendMessage .. | .wakeWorker _ => False
  | .resume _ | .worker _ | .listen _ => True

/-- Nothing more happens until a message is sent. -/
def Settled (listener : T) (s : Echo T) : Prop := ∀ a, s.OwnStep a → s.step listener a = none

end Echo

/-! ### What a step of the services leaves as it is -/

section Frames

variable {T : Type} [DecidableEq T] {s s' : Transport T} {a : TransportAction T} {x : Side}

def actionSide : TransportAction T → Side
  | .sendMessage x _ _ | .resume x _ | .worker x | .wakeWorker x | .listen x => x

theorem other_of_step (hstep : s.step a = some s') :
    s'.nodes (actionSide a).other = s.nodes (actionSide a).other := by
  cases Transport.step_cases hstep <;> simp [actionSide, Transport.set, Transport.append,
    Transport.take]

/-- Only the thread itself moves on in the listen loop. -/
structure KeepsListening (node node' : Node T) : Prop where
  listen : node'.listen = node.listen
  received : node'.received = node.received

theorem listening_of_queueStep {b : MqMessage.Action (List UInt8) T}
    (hstep : s.queueStep x b = some s') : KeepsListening (s.nodes x) (s'.nodes x) := by
  obtain ⟨queue, -, rfl⟩ := Option.map_eq_some_iff.mp hstep
  constructor <;> simp [Transport.set]

theorem listening_of_worker (hstep : s.step (.worker x) = some s') :
    KeepsListening (s.nodes x) (s'.nodes x) := by
  cases Transport.step_cases hstep <;> constructor <;> simp [Transport.set, Transport.append]

theorem queue_of_listen (hstep : s.step (.listen x) = some s') :
    (s'.nodes x).toMqMessageQueue = (s.nodes x).toMqMessageQueue := by
  cases Transport.step_cases hstep <;> simp [Transport.set, Transport.append, Transport.take]

/-- A message is handled when the handler returns. -/
theorem received_of_listen (hstep : s.step (.listen x) = some s') :
    (s'.nodes x).received = (s.nodes x).received ++ (s.nodes x).listen.inHand := by
  cases Transport.step_cases hstep <;>
    simp [Transport.set, Transport.append, Transport.take, ListenPc.inHand, *]

theorem callers_of_worker (hs : s.Reaches) (hstep : s.step (.worker x) = some s') :
    (s'.nodes x).toMqMessageQueue.callers = (s.nodes x).toMqMessageQueue.callers := by
  have hreach := Transport.queue_reachable hs x
  have hworks : ∀ {queue}, (s.nodes x).toMqMessageQueue.step .worker = some queue →
      queue.callers = (s.nodes x).toMqMessageQueue.callers := fun hqueue =>
    ((TaskQueue.running_of_reachable hreach).work (TaskQueue.disciplined_awake hreach).1
      (TaskQueue.work_cases hqueue)).2
  cases Transport.step_cases hstep with
  | works _ hqueue | fails _ _ hqueue _ | writes _ _ hqueue _ _ =>
      simpa [Transport.set, Transport.append] using hworks hqueue
  | connects => simp [Transport.set]

theorem push_cases {t : T} {message : List UInt8}
    (hstep : s.step (.sendMessage x t message) = some s') :
    ∃ retval, (s'.nodes x).toMqMessageQueue =
      ((s.nodes x).toMqMessageQueue.push message).goesTo t (.pushed retval) := by
  obtain ⟨queue, hqueue, rfl⟩ := Option.map_eq_some_iff.mp hstep
  obtain ⟨retval, rfl⟩ := TaskQueue.push_cases hqueue
  exact ⟨retval, by simp [Transport.set]⟩

theorem sent_of_push {t : T} {message : List UInt8}
    (hstep : s.step (.sendMessage x t message) = some s') :
    s'.sent x = s.sent x ++ [message] ∧ s'.sent x.other = s.sent x.other := by
  obtain ⟨retval, hqueue⟩ := push_cases hstep
  refine ⟨?_, congrArg (fun node : Node T => MqMessage.pushedTasks node.toMqMessageQueue.trace)
    (other_of_step hstep)⟩
  simp [Transport.sent, hqueue, TaskQueue.push, TaskQueue.goesTo, MqMessage.pushedTasks]

theorem wake_cases (hstep : s.step (.wakeWorker x) = some s') :
    s' = s.set x { s.nodes x with
      toMqMessageQueue := (s.nodes x).toMqMessageQueue.notified } := by
  rw [Transport.step, Transport.queueStep] at hstep
  obtain ⟨queue, hqueue, rfl⟩ := Option.map_eq_some_iff.mp hstep
  obtain rfl := Option.some.inj hqueue
  rfl

theorem sent_of_wake (hstep : s.step (.wakeWorker x) = some s') : s'.sent = s.sent := by
  funext y
  obtain rfl := wake_cases hstep
  obtain rfl | rfl := y.eq_or_eq_other x
  · simp [Transport.sent, Transport.set]
  · simp [Transport.sent, Transport.set]

theorem callers_of_wake (hstep : s.step (.wakeWorker x) = some s') :
    (s'.nodes x).toMqMessageQueue.callers = (s.nodes x).toMqMessageQueue.callers := by
  obtain rfl := wake_cases hstep
  simp [Transport.set]

/-! ### What arrives -/

/-- The worker goes on as long as it has the mutex. -/
theorem works_of_owns (hs : s.Reaches) (howns : (s.nodes x).toMqMessageQueue.ownsLock = true) :
    s.step (.worker x) ≠ none := by
  have hlock := (TaskQueue.disciplined_awake (Transport.queue_reachable hs x)).1
  have hheld : ∀ {pc}, (s.nodes x).toMqMessageQueue.pc = pc → pc ≠ .outer →
      pc.holdsLock = true := fun hpc hnot => by
    rw [← hpc, ← hlock.owns (hpc ▸ hnot), howns]
  intro hnone
  rw [Transport.step, Transport.works] at hnone
  split at hnone
  · cases hnone
  · exact absurd (hheld ‹_› (by simp)) (by simp [MqMessage.WorkerPc.holdsLock])
  · rw [Option.map_eq_none_iff, TaskQueue.work] at hnone
    cases hpc : (s.nodes x).toMqMessageQueue.pc with
    | wait w =>
        cases w with
        | blocked =>
            exact absurd (hheld hpc (by simp))
              (by simp [MqMessage.WorkerPc.holdsLock, Wait.holdsMux])
        | _ => simp [hpc] at hnone
    | finished => exact absurd (hheld hpc (by simp)) (by simp [MqMessage.WorkerPc.holdsLock])
    | systemError => exact hlock.noError hpc
    | _ => simp [hpc] at hnone

/-- Unless something empty was sent, only what is too long is lost. -/
theorem arrives_beginning (hs : s.Reaches) (hempty : ∀ x, [] ∉ s.sent x) (x : Side) :
    (s.nodes x.other).received ++ (s.nodes x.other).listen.inHand <+: (s.sent x).filter fits := by
  have hlink := Transport.links_of_reaches hs x
  have hself : (s.nodes x).listen.alive = true := by
    simpa using Transport.alive_of_not_mem (x := x.other) hs (hempty x.other)
  have hbroken : .broken ∉ s.written x.other :=
    mt hlink.broken.mp (Transport.not_finished_of_alive hself)
  have harriving := hlink.alive (Transport.alive_of_not_mem hs (hempty x))
  rw [MqMessage.map_message hbroken, hlink.tasks] at harriving
  exact (List.prefix_append _ _).trans (harriving ▸ (Transport.done_prefix_sent hs x).filter _)

theorem arrives_all (hs : s.Reaches) (hempty : ∀ x, [] ∉ s.sent x) (hsettled : s.Settled) (x : Side) :
    (s.nodes x.other).received = (s.sent x).filter fits := by
  have halive := Transport.alive_of_not_mem hs (hempty x)
  have hself : (s.nodes x).listen.alive = true := by
    simpa using Transport.alive_of_not_mem (x := x.other) hs (hempty x.other)
  have hbroken : .broken ∉ s.written x.other :=
    mt (Transport.links_of_reaches hs x).broken.mp (Transport.not_finished_of_alive hself)
  rw [Transport.received_eq hs hsettled halive, MqMessage.map_message hbroken,
    Transport.writtenTasks_eq hs hsettled halive]

/-- One more message to send. -/
theorem rank_of_push {t : T} {message : List UInt8} (F : Finset T)
    (hstep : s.step (.sendMessage x t message) = some s') : s'.rank F ≤ s.rank F + 21 := by
  obtain ⟨queue, hqueue, rfl⟩ := Option.map_eq_some_iff.mp hstep
  obtain ⟨retval, rfl⟩ := TaskQueue.push_cases hqueue
  have hnotifying : ((((s.nodes x).toMqMessageQueue.push message).goesTo t
      (.pushed retval)).notifying F).card ≤ ((s.nodes x).toMqMessageQueue.notifying F).card + 1 := by
    refine (Finset.card_le_card fun u hu => ?_).trans
      (Finset.card_insert_le t ((s.nodes x).toMqMessageQueue.notifying F))
    by_cases hut : u = t
    · simp [hut]
    · rw [TaskQueue.notifying, Finset.mem_filter] at hu
      simpa [TaskQueue.notifying, TaskQueue.goesTo, TaskQueue.push, hut] using hu
  have hqueue : (((s.nodes x).toMqMessageQueue.push message).goesTo t (.pushed retval)).rank ≤
      (s.nodes x).toMqMessageQueue.rank + 17 := by
    simp only [TaskQueue.rank, TaskQueue.goesTo, TaskQueue.push, List.length_append,
      List.length_singleton, if_true]
    omega
  cases x <;> simp [Transport.rank, Transport.set, MqMessage.Node.rank] at hnotifying hqueue ⊢ <;>
    omega

end Frames

namespace Echo

variable {T : Type} [DecidableEq T] {listener : T} {s s' : Echo T} {a : EchoAction T}

/-! ### What is sent back -/

/-- The message that the handler has pushed already. -/
def pushed (s : Echo T) : List (List UInt8) :=
  if s.handler = .push then [] else (s.services.nodes .right).listen.inHand

structure Inv (listener : T) (s : Echo T) : Prop where
  reaches : s.services.Reaches
  nonempty : [] ∉ s.services.sent .left
  sent : s.services.sent .right = (s.services.nodes .right).received ++ s.pushed
  busy : s.handler ≠ .push → ∃ message, (s.services.nodes .right).listen = .handle message
  notifying (t : T) : (∃ retval,
    (s.services.nodes .right).toMqMessageQueue.callers t = .pushed retval) ↔
      t = listener ∧ s.handler = .notify

theorem Inv.init : ({} : Echo T).Inv listener where
  reaches := .refl
  nonempty := by simp [Transport.init, Transport.sent, TaskQueue.init, MqMessage.pushedTasks]
  sent := rfl
  busy := by simp
  notifying t := by simp [Transport.init, TaskQueue.init]

namespace Inv

theorem quiet (h : s.Inv listener) (hreach : s'.services.Reaches)
    (hsent : s'.services.sent .left = s.services.sent .left)
    (hright : s'.services.sent .right = s.services.sent .right)
    (hlistening : KeepsListening (s.services.nodes .right) (s'.services.nodes .right))
    (hcallers : (s'.services.nodes .right).toMqMessageQueue.callers =
      (s.services.nodes .right).toMqMessageQueue.callers)
    (hhandler : s'.handler = s.handler) : s'.Inv listener where
  reaches := hreach
  nonempty := hsent ▸ h.nonempty
  sent := by
    rw [hright, h.sent, pushed, pushed, hhandler, hlistening.listen, hlistening.received]
  busy := by
    rw [hhandler, hlistening.listen]
    exact h.busy
  notifying := by
    rw [hhandler, hcallers]
    exact h.notifying

/-- The other side is not touched by the threads of `MsgCmd`. -/
theorem left (h : s.Inv listener) (hreach : s'.services.Reaches)
    (hnonempty : [] ∉ s'.services.sent .left)
    (hnode : s'.services.nodes .right = s.services.nodes .right)
    (hhandler : s'.handler = s.handler) : s'.Inv listener where
  reaches := hreach
  nonempty := hnonempty
  sent := by
    rw [Transport.sent, pushed, hhandler, hnode]
    exact h.sent
  busy := by
    rw [hhandler, hnode]
    exact h.busy
  notifying := by
    rw [hhandler, hnode]
    exact h.notifying

end Inv

variable {par : StdString → StdString → StdString} {files : StdString → Option StdString}

theorem Inv.pushes (h : s.Inv listener) {message : List UInt8} {services : Transport T}
    (hlisten : (s.services.nodes .right).listen = .handle message) (hhandler : s.handler = .push)
    (hstep : s.services.step (.sendMessage .right listener message) = some services) :
    (⟨services, .notify⟩ : Echo T).Inv listener := by
  have hlistening := listening_of_queueStep hstep
  obtain ⟨hright, hleft⟩ := sent_of_push hstep
  obtain ⟨retval, hqueue⟩ := push_cases hstep
  refine ⟨.tail _ h.reaches trivial hstep, ?_, ?_, fun _ => ⟨message, ?_⟩, fun t => ?_⟩
  · change [] ∉ services.sent Side.right.other
    rw [hleft]
    exact h.nonempty
  · rw [hright, h.sent, hlistening.received]
    simp [pushed, hhandler, hlistening.listen, hlisten, ListenPc.inHand]
  · rw [hlistening.listen, hlisten]
  · have hidle : ∀ retval, (s.services.nodes .right).toMqMessageQueue.callers t ≠ .pushed retval :=
      fun retval hcaller => by simpa [hhandler] using (h.notifying t).mp ⟨retval, hcaller⟩
    by_cases ht : t = listener
    · simp [hqueue, TaskQueue.goesTo, ht]
    · simp [hqueue, TaskQueue.goesTo, TaskQueue.push, ht, hidle]

theorem Inv.notifies (h : s.Inv listener) {message : List UInt8} {services : Transport T}
    (hlisten : (s.services.nodes .right).listen = .handle message) (hhandler : s.handler = .notify)
    (hstep : s.services.step (.resume .right listener) = some services) :
    (⟨services, .leave⟩ : Echo T).Inv listener := by
  have hlistening := listening_of_queueStep hstep
  have hsent := Transport.sent_of_step (a := .resume .right listener) h.reaches trivial hstep
  refine ⟨.tail _ h.reaches trivial hstep, ?_, ?_, fun _ => ⟨message, ?_⟩, fun t => ?_⟩
  · rw [hsent]
    exact h.nonempty
  · rw [hsent, h.sent, hlistening.received]
    simp [pushed, hhandler, hlistening.listen]
  · rw [hlistening.listen, hlisten]
  · have hrunning := TaskQueue.running_of_reachable (Transport.queue_reachable h.reaches .right)
    obtain ⟨queue, hqueue, rfl⟩ := Option.map_eq_some_iff.mp hstep
    obtain ⟨-, rfl⟩ := TaskQueue.resume_cases hrunning hqueue
    by_cases ht : t = listener
    · simp [Transport.set, TaskQueue.goesTo, ht]
    · have hcaller := h.notifying t
      simp only [ht, false_and, iff_false] at hcaller
      simpa [Transport.set, TaskQueue.goesTo, ht] using hcaller

theorem Inv.returns (h : s.Inv listener) {services : Transport T} (hhandler : s.handler = .leave)
    (hstep : s.services.step (.listen .right) = some services) :
    (⟨services, .push⟩ : Echo T).Inv listener := by
  have hsent := Transport.sent_of_step (a := .listen .right) h.reaches trivial hstep
  refine ⟨.tail _ h.reaches trivial hstep, ?_, ?_, fun hnot => absurd rfl hnot, fun t => ?_⟩
  · rw [hsent]
    exact h.nonempty
  · rw [hsent, h.sent, received_of_listen hstep]
    simp [pushed, hhandler]
  · rw [queue_of_listen hstep, h.notifying t, hhandler]
    simp

theorem Inv.listens (h : s.Inv listener) {services : Transport T}
    (hlisten : ∀ message, (s.services.nodes .right).listen ≠ .handle message)
    (hstep : s.services.step (.listen .right) = some services) :
    (⟨services, .push⟩ : Echo T).Inv listener := by
  have hhandler : s.handler = .push := by
    by_contra hnot
    obtain ⟨message, hhandle⟩ := h.busy hnot
    exact hlisten message hhandle
  have hinHand : (s.services.nodes .right).listen.inHand = [] := by
    cases hpc : (s.services.nodes .right).listen with
    | handle message => exact absurd hpc (hlisten message)
    | _ => rfl
  have hsent := Transport.sent_of_step (a := .listen .right) h.reaches trivial hstep
  refine ⟨.tail _ h.reaches trivial hstep, ?_, ?_, fun hnot => absurd rfl hnot, fun t => ?_⟩
  · rw [hsent]
    exact h.nonempty
  · rw [hsent, h.sent, received_of_listen hstep, hinHand]
    simp [pushed, hhandler]
  · rw [queue_of_listen hstep, h.notifying t, hhandler]

/-- All that the listen thread of `MsgCmdEcho` can do. -/
theorem listen_cases (hstep : s.step listener (.listen .right) = some s') :
    (∃ message, (s.services.nodes .right).listen = .handle message ∧
      (s.handler = .push ∧ s'.handler = .notify ∧
        s.services.step (.sendMessage .right listener message) = some s'.services ∨
      s.handler = .notify ∧ s'.handler = .leave ∧
        s.services.step (.resume .right listener) = some s'.services ∨
      s.handler = .leave ∧ s'.handler = .push ∧
        s.services.step (.listen .right) = some s'.services)) ∨
    (∀ message, (s.services.nodes .right).listen ≠ .handle message) ∧ s'.handler = .push ∧
      s.services.step (.listen .right) = some s'.services := by
  obtain ⟨services, hservices, rfl⟩ := Option.map_eq_some_iff.mp hstep
  cases hpc : (s.services.nodes .right).listen with
  | handle message =>
      refine .inl ⟨message, rfl, ?_⟩
      cases hhandler : s.handler with
      | push => exact .inl ⟨rfl, by simp [nextHandler, hpc, hhandler],
          by simpa [action, hpc, hhandler] using hservices⟩
      | notify => exact .inr (.inl ⟨rfl, by simp [nextHandler, hpc, hhandler],
          by simpa [action, hpc, hhandler] using hservices⟩)
      | leave => exact .inr (.inr ⟨rfl, by simp [nextHandler, hpc, hhandler],
          by simpa [action, hpc, hhandler] using hservices⟩)
  | _ =>
      refine .inr ⟨by simp, by simp [nextHandler, hpc], ?_⟩
      simpa [action, hpc] using hservices

theorem Inv.step (h : s.Inv listener) (hcommand : s.FromCommand par files a)
    (hstep : s.step listener a = some s') : s'.Inv listener := by
  have hright : a = .listen .right → s'.Inv listener := by
    rintro rfl
    obtain ⟨services, handler⟩ := s'
    obtain ⟨message, hlisten, ⟨hhandler, rfl, hpush⟩ | ⟨hhandler, rfl, hnotify⟩ |
      ⟨hhandler, rfl, hreturn⟩⟩ | ⟨hlisten, rfl, hlistens⟩ := listen_cases hstep
    · exact h.pushes hlisten hhandler hpush
    · exact h.notifies hlisten hhandler hnotify
    · exact h.returns hhandler hreturn
    · exact h.listens hlisten hlistens
  obtain ⟨services, hservices, rfl⟩ := Option.map_eq_some_iff.mp hstep
  have hreach : services.Reaches := .tail _ h.reaches trivial hservices
  cases a with
  | sendMessage t message =>
      refine h.left hreach ?_ (other_of_step hservices) rfl
      obtain ⟨params, hmessage⟩ := hcommand
      rw [(sent_of_push hservices).1, List.mem_append, List.mem_singleton, not_or]
      exact ⟨h.nonempty, (doCmd_message.mp hmessage).1.symm⟩
  | resume t =>
      refine h.left hreach ?_ (other_of_step hservices) rfl
      rw [Transport.sent_of_step (a := .resume .left t) h.reaches trivial hservices]
      exact h.nonempty
  | worker x =>
      have hsent := Transport.sent_of_step (a := .worker x) h.reaches trivial hservices
      cases x with
      | left =>
          refine h.left hreach ?_ (other_of_step hservices) rfl
          rw [hsent]
          exact h.nonempty
      | right =>
          exact h.quiet hreach (congrFun hsent _) (congrFun hsent _) (listening_of_worker hservices)
            (callers_of_worker h.reaches hservices) rfl
  | wakeWorker x =>
      have hsent := sent_of_wake hservices
      cases x with
      | left =>
          refine h.left hreach ?_ (other_of_step hservices) rfl
          rw [hsent]
          exact h.nonempty
      | right =>
          exact h.quiet hreach (congrFun hsent _) (congrFun hsent _) (listening_of_queueStep hservices)
            (callers_of_wake hservices) rfl
  | listen x =>
      cases x with
      | left =>
          refine h.left hreach ?_ (other_of_step hservices) rfl
          rw [Transport.sent_of_step (a := .listen .left) h.reaches trivial hservices]
          exact h.nonempty
      | right => exact hright rfl

/-! ### All comes back -/

abbrev Reaches (listener : T) (par : StdString → StdString → StdString)
    (files : StdString → Option StdString) (s : Echo T) : Prop :=
  Runs.Reachable (step listener) (FromCommand par files) {} s

theorem inv_of_reaches (h : s.Reaches listener par files) : s.Inv listener :=
  h.invariant (Inv listener) Inv.init fun _ _ _ hs hcommand hstep => hs.step hcommand hstep

namespace Inv

/-- What was sent back had been read. -/
theorem sent_beginning (h : s.Inv listener) : s.services.sent .right <+:
    (s.services.nodes .right).received ++ (s.services.nodes .right).listen.inHand := by
  rw [h.sent, pushed]
  split_ifs
  · simp
  · exact List.prefix_rfl

theorem sent_nonempty (h : s.Inv listener) (x : Side) : [] ∉ s.services.sent x := by
  cases x with
  | left => exact h.nonempty
  | right =>
      intro hempty
      have hread := h.sent_beginning.subset hempty
      exact ((Transport.links_of_reaches h.reaches .left).handled [] hread).1 rfl

/-- What was sent back was sent. -/
theorem sent_right_beginning (h : s.Inv listener) :
    s.services.sent .right <+: (s.services.sent .left).filter fits :=
  h.sent_beginning.trans (arrives_beginning h.reaches h.sent_nonempty .left)

theorem received_beginning (h : s.Inv listener) :
    (s.services.nodes .left).received <+: (s.services.sent .left).filter fits := by
  have hback : (s.services.nodes .left).received <+: (s.services.sent .right).filter fits :=
    (List.prefix_append _ _).trans (arrives_beginning h.reaches h.sent_nonempty .right)
  have hthere := h.sent_right_beginning.filter fits
  rw [List.filter_filter] at hthere
  simpa using hback.trans hthere

theorem not_handle_of_settled (h : s.Inv listener) (hsettled : s.Settled listener)
    (message : List UInt8) : (s.services.nodes .right).listen ≠ .handle message := by
  intro hlisten
  have hnone := Option.map_eq_none_iff.mp (hsettled (.listen .right) trivial)
  cases hhandler : s.handler with
  | push =>
      -- the worker has the mutex, so the worker goes on
      have howns : (s.services.nodes .right).toMqMessageQueue.ownsLock = true := by
        by_contra hfree
        have hidle : (s.services.nodes .right).toMqMessageQueue.callers listener = .idle := by
          have hrunning :=
            TaskQueue.running_of_reachable (Transport.queue_reachable h.reaches .right)
          refine (hrunning.callers listener).resolve_right fun hpushed => ?_
          simpa [hhandler] using (h.notifying listener).mp hpushed
        have henter : (s.services.nodes .right).toMqMessageQueue.CanEnter listener :=
          ⟨hidle, eq_false_of_ne_true hfree⟩
        simp [action, hlisten, hhandler, Transport.step, Transport.queueStep, TaskQueue.step,
          henter] at hnone
      exact works_of_owns h.reaches howns
        (Option.map_eq_none_iff.mp (hsettled (.worker .right) trivial))
  | notify =>
      obtain ⟨retval, hcaller⟩ := (h.notifying listener).mpr ⟨rfl, hhandler⟩
      simp [action, hlisten, hhandler, Transport.step, Transport.queueStep, TaskQueue.step,
        TaskQueue.resumes, hcaller] at hnone
  | leave => simp [action, hlisten, hhandler, Transport.step, Transport.listens] at hnone

theorem services_settled (h : s.Inv listener) (hsettled : s.Settled listener) :
    s.services.Settled := by
  have hnot := h.not_handle_of_settled hsettled
  have hstep : ∀ a, s.OwnStep a → s.services.step (s.action listener a) = none := fun a hown =>
    Option.map_eq_none_iff.mp (hsettled a hown)
  intro a hown
  cases a with
  | sendMessage | wakeWorker => cases hown
  | resume x t =>
      cases x with
      | left => exact hstep (.resume t) trivial
      | right =>
          have hrunning :=
            TaskQueue.running_of_reachable (Transport.queue_reachable h.reaches .right)
          have hidle : (s.services.nodes .right).toMqMessageQueue.callers t = .idle := by
            refine (hrunning.callers t).resolve_right fun hpushed => ?_
            obtain ⟨message, hlisten⟩ := h.busy (by simp [((h.notifying t).mp hpushed).2])
            exact hnot message hlisten
          simp [Transport.step, Transport.queueStep, TaskQueue.step, TaskQueue.resumes, hidle]
  | worker x => exact hstep (.worker x) trivial
  | listen x =>
      cases x with
      | left => exact hstep (.listen .left) trivial
      | right =>
          have hnone := hstep (.listen .right) trivial
          cases hlisten : (s.services.nodes .right).listen with
          | handle message => exact absurd hlisten (hnot message)
          | _ => simpa [action, hlisten] using hnone

/-- At rest, all that fits has come back. -/
theorem received_eq (h : s.Inv listener) (hsettled : s.Settled listener) :
    (s.services.nodes .left).received = (s.services.sent .left).filter fits := by
  have hservices := h.services_settled hsettled
  have hthere := arrives_all h.reaches h.sent_nonempty hservices .left
  have hback := arrives_all h.reaches h.sent_nonempty hservices .right
  have hsent : s.services.sent .right = (s.services.nodes .right).received := by
    have hinHand : (s.services.nodes .right).listen.inHand = [] := by
      cases hlisten : (s.services.nodes .right).listen with
      | handle message => exact absurd hlisten (h.not_handle_of_settled hsettled message)
      | _ => rfl
    rw [h.sent, pushed, hinHand]
    simp
  simp only [Side.other] at hthere hback
  rw [hback, hsent, hthere, List.filter_filter]
  simp

end Inv

/-! ### It comes back by itself -/

variable {F : Finset T}

/-- The threads that are not in `F` have nothing to do. -/
def IdleOutside (F : Finset T) (s : Echo T) : Prop :=
  ∀ x t, t ∉ F → (s.services.nodes x).toMqMessageQueue.callers t = .idle

/-- A message that is still to be sent back takes 21 steps at most, apart from sending it. -/
def rank (F : Finset T) (s : Echo T) : Nat :=
  22 * ((s.services.sent .left).length - (s.services.sent .right).length) + s.services.rank F

omit [DecidableEq T] in
/-- Unless it pushes, the handler only takes steps that the services take by themselves. -/
theorem own_or_push (listener : T) (hown : s.OwnStep a) :
    s.services.OwnStep (s.action listener a) ∨
      ∃ message, s.action listener a = .sendMessage .right listener message := by
  cases a with
  | sendMessage | wakeWorker => cases hown
  | resume | worker => exact .inl trivial
  | listen x =>
      cases x with
      | left => exact .inl trivial
      | right =>
          rw [action]
          split
          · exact .inr ⟨_, rfl⟩
          · exact .inl trivial
          · exact .inl trivial

/-- Every step that the services take by themselves counts. -/
theorem rank_of_own (h : s.Inv listener) (hlistener : listener ∈ F) (hF : s.IdleOutside F)
    (hs' : s'.Inv listener) (hown : s.OwnStep a) (hstep : s.step listener a = some s') :
    s'.rank F < s.rank F ∧ s'.IdleOutside F ∧
      s'.services.sent .left = s.services.sent .left := by
  obtain ⟨services, hservices, rfl⟩ := Option.map_eq_some_iff.mp hstep
  obtain hquiet | ⟨message, hpush⟩ := own_or_push listener hown
  · have hsent := Transport.sent_of_step h.reaches hquiet hservices
    have hless := Transport.rank_of_step h.reaches hF hquiet hservices
    refine ⟨?_, Transport.idle_of_step h.reaches hF hquiet hservices, congrFun hsent _⟩
    simp only [rank, hsent]
    omega
  · rw [hpush] at hservices
    obtain ⟨hright, hleft⟩ := sent_of_push hservices
    have hrank := rank_of_push F hservices
    have hlength := hs'.sent_right_beginning.length_le.trans (List.length_filter_le _ _)
    refine ⟨?_, fun x t ht => ?_, hleft⟩
    · simp only [Side.other] at hleft
      simp only [rank, hright, hleft, List.length_append, List.length_singleton] at hlength ⊢
      omega
    · obtain rfl | rfl := x.eq_or_eq_other .right
      · obtain ⟨retval, hqueue⟩ := push_cases hservices
        have hne : t ≠ listener := fun heq => ht (heq ▸ hlistener)
        simpa [hqueue, TaskQueue.goesTo, TaskQueue.push, hne] using hF .right t ht
      · have hother : services.nodes Side.right.other = s.services.nodes Side.right.other :=
          other_of_step hservices
        change (services.nodes Side.right.other).toMqMessageQueue.callers t = .idle
        rw [hother]
        exact hF .left t ht

theorem inevitably_settled (h : s.Inv listener) :
    Runs.Inevitably (step listener) OwnStep (fun t => t.Settled listener ∧ t.Inv listener ∧
      t.services.sent .left = s.services.sent .left) s := by
  obtain ⟨F, hF⟩ := Transport.exists_idle h.reaches
  have hidle : s.IdleOutside (insert listener F) := fun x t ht =>
    hF x t fun hmem => ht (Finset.mem_insert_of_mem hmem)
  refine (Runs.inevitably_of_rank (P := Settled listener) (fun t => t.Inv listener ∧
    t.IdleOutside (insert listener F) ∧ t.services.sent .left = s.services.sent .left)
    (rank (insert listener F)) ?_ ?_ ⟨h, hidle, rfl⟩).mono ?_
  · intro t _ hnot
    simp only [Settled, not_forall] at hnot
    obtain ⟨a, hown, hstep⟩ := hnot
    obtain ⟨t', ht'⟩ := Option.ne_none_iff_exists'.mp hstep
    exact ⟨a, t', hown, ht'⟩
  · rintro t a t' ⟨ht, hidle, hsent⟩ - hown ht'
    have hcommand : t.FromCommand (fun _ _ => []) (fun _ => none) a := by
      cases a with
      | sendMessage => cases hown
      | _ => trivial
    have hinv := ht.step hcommand ht'
    obtain ⟨hless, hidle', hsent'⟩ :=
      rank_of_own ht (Finset.mem_insert_self listener F) hidle hinv hown ht'
    exact ⟨⟨hinv, hidle', hsent'.trans hsent⟩, hless⟩
  · rintro t ⟨hsettled, ht, -, hsent⟩
    exact ⟨hsettled, ht, hsent⟩

/-- **The echo**: what has come back is at any time a beginning of what the command has sent, without
what is too long for a queue; and whatever the order of the steps, the services bring all of it back,
after which nothing more happens. -/
theorem echoes (h : s.Reaches listener par files) :
    (s.services.nodes .left).received <+: (s.services.sent .left).filter fits ∧
    (s.Settled listener →
      (s.services.nodes .left).received = (s.services.sent .left).filter fits) ∧
    Runs.Inevitably (step listener) OwnStep (fun t => t.Settled listener ∧
      (t.services.nodes .left).received = (s.services.sent .left).filter fits) s := by
  have hinv := inv_of_reaches h
  refine ⟨hinv.received_beginning, hinv.received_eq, (inevitably_settled hinv).mono ?_⟩
  rintro t ⟨hsettled, ht, hsent⟩
  exact ⟨hsettled, hsent ▸ ht.received_eq hsettled⟩

/-- One text is sent and comes back. -/
theorem echoes_text : ∃ s : Echo Unit, s.services.sent .left = [bytes "hello"] ∧
    Runs.Inevitably (step ()) OwnStep
      (fun t => (t.services.nodes .left).received = [bytes "hello"]) s := by
  have hstep : ∃ s : Echo Unit, step () {} (.sendMessage () (bytes "hello")) = some s ∧
      s.services.sent .left = [bytes "hello"] := ⟨_, rfl, rfl⟩
  obtain ⟨s, hstep, hsent⟩ := hstep
  have hcommand : FromCommand (fun _ _ => []) (fun _ => none) ({} : Echo Unit)
      (.sendMessage () (bytes "hello")) := ⟨bytes "c t hello", by decide +kernel⟩
  refine ⟨s, hsent, (echoes (.tail _ .refl hcommand hstep)).2.2.mono fun t ⟨_, hreceived⟩ => ?_⟩
  rw [hreceived, hsent]
  decide +kernel

end Echo

end Shapeware.Examples
