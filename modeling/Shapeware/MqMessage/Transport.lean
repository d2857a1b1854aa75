import Shapeware.Cxx
import Shapeware.MqMessage.Fifo

/-!
# The transport between two message services

The `LocalMqName` of each service is the `RemoteMqName` of the other, so there is one POSIX queue for
each of them, which its listen thread reads and the other service writes. `sendMessage` pushes to the
task queue, and its worker passes the message to `sendTo`. The queues can be opened, and the message
handlers stay registered.
-/

namespace Shapeware.MqMessage

def iqrfMqBufferSize : Nat := 64 * 1024

/-- `MAX_MESSAGES`. -/
def maxMessages : Nat := 32

/-- `mq_msgsize`. -/
def msgSize : Nat := iqrfMqBufferSize / maxMessages

def brokenMsg : StdString := bytes "Remote broken"

inductive Side
  | left
  | right
deriving DecidableEq

def Side.other : Side → Side
  | .left => .right
  | .right => .left

@[simp] theorem Side.other_other (x : Side) : x.other.other = x := by
  cases x <;> rfl

@[simp] theorem Side.other_ne (x : Side) : x.other ≠ x := by
  cases x <;> simp [other]

theorem Side.eq_or_eq_other (x y : Side) : x = y ∨ x = y.other := by
  cases x <;> cases y <;> simp [other]

/-- Where the worker of the task queue is in `sendTo`. -/
inductive SendPc
  | connect
  | write
deriving DecidableEq

/-- Where the listen thread is; its own call of `sendTo` has two steps too. -/
inductive ListenPc
  | open
  | read
  | handle (message : List UInt8)
  | brokenConnect
  | brokenWrite
  | finished
deriving DecidableEq

/-- A service. The calls of its message handler are recorded. -/
structure Node (T : Type) where
  toMqMessageQueue : TaskQueue (List UInt8) T := .init
  sending : SendPc := .connect
  connected : Bool := false
  server : Bool := false
  runListenThread : Bool := true
  state : Bool := false
  listen : ListenPc := .open
  received : List (List UInt8) := []

/-- What was written to a queue: the message of a task, or that the listen thread is about to end. -/
inductive Written
  | task (message : List UInt8)
  | broken
deriving DecidableEq

def Written.message : Written → List UInt8
  | .task message => message
  | .broken => brokenMsg

/-- The queue of a side is the one that it reads. -/
structure Transport (T : Type) where
  nodes : Side → Node T
  mqs : Side → List (List UInt8)
  /-- All that was ever written to the queue. -/
  written : Side → List Written

inductive TransportAction (T : Type)
  | sendMessage (x : Side) (t : T) (message : List UInt8)
  /-- A thread in `sendMessage` notifies the worker. -/
  | resume (x : Side) (t : T)
  | worker (x : Side)
  /-- The worker wakes up without a notification. -/
  | wakeWorker (x : Side)
  | listen (x : Side)
deriving DecidableEq

namespace Transport

variable {T : Type}

/-- Both services are activated. -/
def init : Transport T :=
  { nodes := fun _ => {}, mqs := fun _ => [], written := fun _ => [] }

def set (s : Transport T) (x : Side) (node : Node T) : Transport T :=
  { s with nodes := Function.update s.nodes x node }

/-- A message is written to the queue of the other side. -/
def append (s : Transport T) (x : Side) (w : Written) (node : Node T) : Transport T :=
  { nodes := Function.update s.nodes x node
    mqs := Function.update s.mqs x.other (s.mqs x.other ++ [w.message])
    written := Function.update s.written x.other (s.written x.other ++ [w]) }

/-- `mq_send` fails for a message that is too long, and blocks while the queue is full. -/
def writeMq (s : Transport T) (x : Side) (w : Written) (done : Bool → Node T) :
    Option (Transport T) :=
  if msgSize < w.message.length then some (s.set x (done false))
  else if (s.mqs x.other).length < maxMessages then some (s.append x w (done true))
  else none

/-- A step of the worker, which is in `sendTo` while it processes a task. -/
def works (s : Transport T) (x : Side) : Option (Transport T) :=
  let node := s.nodes x
  match node.toMqMessageQueue.pc, node.sending with
  | .processing _, .connect => some (s.set x { node with connected := true, sending := .write })
  | .processing task, .write =>
    node.toMqMessageQueue.work.bind fun queue =>
      s.writeMq x (.task task) fun fSuccess =>
        { node with
          toMqMessageQueue := queue, sending := .connect
          connected := node.connected && fSuccess }
  | _, _ => node.toMqMessageQueue.work.map fun queue =>
    s.set x { node with toMqMessageQueue := queue }

/-- A message is taken from the own queue. -/
def take (s : Transport T) (x : Side) (rest : List (List UInt8)) (node : Node T) : Transport T :=
  { s with
    nodes := Function.update s.nodes x node
    mqs := Function.update s.mqs x rest }

/-- `readMq` takes a message without any bytes for a failure. -/
def readMq (s : Transport T) (x : Side) : Option (Transport T) :=
  let node := s.nodes x
  match s.mqs x with
  | [] => none
  | message :: rest =>
    some (s.take x rest
      (if message = [] then
        if node.server then { node with connected := false, listen := .open }
        else { node with listen := .brokenConnect }
      else { node with listen := .handle message }))

/-- A step of the listen thread. -/
def listens (s : Transport T) (x : Side) : Option (Transport T) :=
  let node := s.nodes x
  match node.listen with
  | .open =>
    some (s.set x
      (if node.runListenThread then { node with state := true, listen := .read }
      else { node with state := false, listen := .finished }))
  | .read => s.readMq x
  | .handle message =>
    some (s.set x { node with received := node.received ++ [message], listen := .read })
  | .brokenConnect => some (s.set x { node with connected := true, listen := .brokenWrite })
  | .brokenWrite =>
    s.writeMq x .broken fun fSuccess =>
      { node with
        connected := node.connected && fSuccess, runListenThread := false, state := false
        listen := .finished }
  | .finished => none

variable [DecidableEq T]

/-- A step of the task queue of a side. -/
def queueStep (s : Transport T) (x : Side) (a : Action (List UInt8) T) : Option (Transport T) :=
  ((s.nodes x).toMqMessageQueue.step a).map fun queue =>
    s.set x { s.nodes x with toMqMessageQueue := queue }

def step (s : Transport T) : TransportAction T → Option (Transport T)
  | .sendMessage x t message => s.queueStep x (.pushToQueue t message)
  | .resume x t => s.queueStep x (.resume t)
  | .worker x => s.works x
  | .wakeWorker x => s.queueStep x .wakeWorker
  | .listen x => s.listens x

/-! ### All that a step can do -/

inductive Steps (s : Transport T) : TransportAction T → Transport T → Prop
  | pushes {x : Side} {t : T} {message : List UInt8} {queue : TaskQueue (List UInt8) T}
      (hqueue : (s.nodes x).toMqMessageQueue.step (.pushToQueue t message) = some queue) :
      Steps s (.sendMessage x t message)
        (s.set x { s.nodes x with toMqMessageQueue := queue })
  | notifies {x : Side} {t : T} {queue : TaskQueue (List UInt8) T}
      (hqueue : (s.nodes x).toMqMessageQueue.step (.resume t) = some queue) :
      Steps s (.resume x t) (s.set x { s.nodes x with toMqMessageQueue := queue })
  | wakes {x : Side} {queue : TaskQueue (List UInt8) T}
      (hqueue : (s.nodes x).toMqMessageQueue.step .wakeWorker = some queue) :
      Steps s (.wakeWorker x) (s.set x { s.nodes x with toMqMessageQueue := queue })
  | works {x : Side} {queue : TaskQueue (List UInt8) T}
      (hidle : ∀ task, (s.nodes x).toMqMessageQueue.pc ≠ .processing task)
      (hqueue : (s.nodes x).toMqMessageQueue.step .worker = some queue) :
      Steps s (.worker x) (s.set x { s.nodes x with toMqMessageQueue := queue })
  | connects {x : Side} {task : List UInt8}
      (hpc : (s.nodes x).toMqMessageQueue.pc = .processing task)
      (hsending : (s.nodes x).sending = .connect) :
      Steps s (.worker x) (s.set x { s.nodes x with connected := true, sending := .write })
  | fails {x : Side} {task : List UInt8} {queue : TaskQueue (List UInt8) T}
      (hpc : (s.nodes x).toMqMessageQueue.pc = .processing task)
      (hsending : (s.nodes x).sending = .write)
      (hqueue : (s.nodes x).toMqMessageQueue.step .worker = some queue)
      (hlong : msgSize < task.length) :
      Steps s (.worker x)
        (s.set x { s.nodes x with
          toMqMessageQueue := queue, sending := .connect, connected := false })
  | writes {x : Side} {task : List UInt8} {queue : TaskQueue (List UInt8) T}
      (hpc : (s.nodes x).toMqMessageQueue.pc = .processing task)
      (hsending : (s.nodes x).sending = .write)
      (hqueue : (s.nodes x).toMqMessageQueue.step .worker = some queue)
      (hfits : task.length ≤ msgSize) (hroom : (s.mqs x.other).length < maxMessages) :
      Steps s (.worker x)
        (s.append x (.task task) { s.nodes x with toMqMessageQueue := queue, sending := .connect })
  | opens {x : Side} (hlisten : (s.nodes x).listen = .open)
      (hrun : (s.nodes x).runListenThread = true) :
      Steps s (.listen x) (s.set x { s.nodes x with state := true, listen := .read })
  | stops {x : Side} (hlisten : (s.nodes x).listen = .open)
      (hrun : (s.nodes x).runListenThread = false) :
      Steps s (.listen x) (s.set x { s.nodes x with state := false, listen := .finished })
  | reads {x : Side} {message : List UInt8} {rest : List (List UInt8)}
      (hlisten : (s.nodes x).listen = .read) (hmq : s.mqs x = message :: rest)
      (hmessage : message ≠ []) :
      Steps s (.listen x) (s.take x rest { s.nodes x with listen := .handle message })
  | reopens {x : Side} {rest : List (List UInt8)} (hlisten : (s.nodes x).listen = .read)
      (hmq : s.mqs x = [] :: rest) (hserver : (s.nodes x).server = true) :
      Steps s (.listen x)
        (s.take x rest { s.nodes x with connected := false, listen := .open })
  | breaks {x : Side} {rest : List (List UInt8)} (hlisten : (s.nodes x).listen = .read)
      (hmq : s.mqs x = [] :: rest) (hserver : (s.nodes x).server = false) :
      Steps s (.listen x) (s.take x rest { s.nodes x with listen := .brokenConnect })
  | handles {x : Side} {message : List UInt8} (hlisten : (s.nodes x).listen = .handle message) :
      Steps s (.listen x)
        (s.set x { s.nodes x with
          received := (s.nodes x).received ++ [message], listen := .read })
  | brokenConnects {x : Side} (hlisten : (s.nodes x).listen = .brokenConnect) :
      Steps s (.listen x) (s.set x { s.nodes x with connected := true, listen := .brokenWrite })
  | brokenWrites {x : Side} (hlisten : (s.nodes x).listen = .brokenWrite)
      (hroom : (s.mqs x.other).length < maxMessages) :
      Steps s (.listen x)
        (s.append x .broken { s.nodes x with
          runListenThread := false, state := false, listen := .finished })

theorem brokenMsg_fits : brokenMsg.length ≤ msgSize := by
  decide +kernel

omit [DecidableEq T] in
theorem writeMq_cases {s s' : Transport T} {x : Side} {w : Written} {done : Bool → Node T}
    (h : s.writeMq x w done = some s') :
    (msgSize < w.message.length ∧ s' = s.set x (done false)) ∨
    (w.message.length ≤ msgSize ∧ (s.mqs x.other).length < maxMessages ∧
      s' = s.append x w (done true)) := by
  rw [writeMq] at h
  split_ifs at h with hlong hroom
  · exact .inl ⟨hlong, (Option.some.inj h).symm⟩
  · exact .inr ⟨Nat.le_of_not_lt hlong, hroom, (Option.some.inj h).symm⟩

theorem work_cases {s s' : Transport T} {x : Side} (h : s.works x = some s') :
    s.Steps (.worker x) s' := by
  rw [Transport.works] at h
  split at h
  · cases h
    exact .connects ‹_› ‹_›
  · rename_i task hpc hsending
    obtain ⟨queue, hqueue, hwrite⟩ := Option.bind_eq_some_iff.mp h
    obtain ⟨hlong, rfl⟩ | ⟨hfits, hroom, rfl⟩ := writeMq_cases hwrite
    · simpa using Steps.fails hpc hsending hqueue hlong
    · simpa using Steps.writes hpc hsending hqueue hfits hroom
  · rename_i hconnect hwrite
    obtain ⟨queue, hqueue, rfl⟩ := Option.map_eq_some_iff.mp h
    refine .works (fun task hpc => ?_) hqueue
    cases hsending : (s.nodes x).sending with
    | connect => exact hconnect task hpc hsending
    | write => exact hwrite task hpc hsending

omit [DecidableEq T] in
theorem readMq_cases {s s' : Transport T} {x : Side} (h : s.readMq x = some s') :
    ∃ message rest, s.mqs x = message :: rest ∧ s' = s.take x rest
      (if message = [] then
        if (s.nodes x).server then { s.nodes x with connected := false, listen := .open }
        else { s.nodes x with listen := .brokenConnect }
      else { s.nodes x with listen := .handle message }) := by
  rw [readMq] at h
  split at h
  · cases h
  · exact ⟨_, _, ‹_›, (Option.some.inj h).symm⟩

theorem listen_cases {s s' : Transport T} {x : Side} (h : s.listens x = some s') :
    s.Steps (.listen x) s' := by
  rw [listens] at h
  cases hlisten : (s.nodes x).listen with
  | «open» =>
      simp only [hlisten, Option.some.injEq] at h
      split_ifs at h with hrun <;> subst h
      · exact .opens hlisten hrun
      · exact .stops hlisten (eq_false_of_ne_true hrun)
  | read =>
      simp only [hlisten] at h
      obtain ⟨message, rest, hmq, rfl⟩ := readMq_cases h
      split_ifs with hmessage hserver
      · exact .reopens hlisten (hmessage ▸ hmq) hserver
      · exact .breaks hlisten (hmessage ▸ hmq) (eq_false_of_ne_true hserver)
      · exact .reads hlisten hmq hmessage
  | handle message =>
      simp only [hlisten, Option.some.injEq] at h
      exact h ▸ .handles hlisten
  | brokenConnect =>
      simp only [hlisten, Option.some.injEq] at h
      exact h ▸ .brokenConnects hlisten
  | brokenWrite =>
      simp only [hlisten] at h
      obtain ⟨hlong, -⟩ | ⟨-, hroom, rfl⟩ := writeMq_cases h
      · exact absurd brokenMsg_fits (Nat.not_le_of_lt hlong)
      · simpa using Steps.brokenWrites hlisten hroom
  | finished => simp [hlisten] at h

theorem step_cases {s s' : Transport T} {a : TransportAction T} (h : s.step a = some s') :
    s.Steps a s' := by
  cases a with
  | sendMessage x t message =>
      obtain ⟨queue, hqueue, rfl⟩ := Option.map_eq_some_iff.mp h
      exact .pushes hqueue
  | resume x t =>
      obtain ⟨queue, hqueue, rfl⟩ := Option.map_eq_some_iff.mp h
      exact .notifies hqueue
  | worker x => exact work_cases h
  | wakeWorker x =>
      rw [step, queueStep] at h
      obtain ⟨queue, hqueue, rfl⟩ := Option.map_eq_some_iff.mp h
      exact .wakes hqueue
  | listen x => exact listen_cases h

end Transport

end Shapeware.MqMessage
