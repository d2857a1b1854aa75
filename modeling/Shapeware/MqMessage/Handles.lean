import Shapeware.Library.Runs

/-!
# The handle of the remote queue

`sendTo` opens the remote queue when `m_connected` is false and writes to its handle. It runs on the
worker of the task queue and, when reading fails, on the listen thread. Only closing and opening are
under `m_connectMtx`: the test of `m_connected` comes before it and the write after it, and
`deactivate` loads the handle and then closes it without it, and leaves both members as they are.
-/

namespace Shapeware.MqMessage

open Runs

/-- The two threads that call `sendTo`. -/
inductive Sender
  | worker
  | listen
deriving DecidableEq

instance : Fintype Sender := ⟨{.worker, .listen}, fun t => by cases t <;> simp⟩

/-- Where a thread is in `sendTo`, with `connect` in it. -/
inductive SenderPc
  | idle
  /-- Before `if (!m_connected)`. -/
  | test
  | lock
  /-- From here to `setConnected` the thread holds `m_connectMtx`, and nobody else changes
  `m_remoteMqHandle`. -/
  | close
  | open
  | setConnected
  /-- Before `m_remoteMqHandle` is read for the write. -/
  | load
  | write (handle : Option Nat)
  /-- The write has failed. -/
  | setBroken
  | finished
deriving DecidableEq

namespace SenderPc

def holdsMtx : SenderPc → Bool
  | .close | .open | .setConnected => true
  | _ => false

end SenderPc

/-- Where `deactivate` is; it has loaded a handle from `m_remoteMqHandle`, or has closed it. -/
inductive DeactivatePc
  | running
  | cancelled
  | loaded (handle : Option Nat)
  | closed (handle : Option Nat)
deriving DecidableEq

def DeactivatePc.isClosed : DeactivatePc → Bool
  | .closed _ => true
  | .running | .cancelled | .loaded _ => false

/-- Handles are numbered in the order in which `openMqWrite` returns them. -/
inductive HandleEvent
  | opened (handle : Nat)
  | closed (handle : Nat)
  | written (handle : Nat)
deriving DecidableEq

structure Remote where
  /-- `m_connected`. -/
  connected : Bool := false
  /-- `m_remoteMqHandle`, unless it is `INVALID_HANDLE_VALUE`. -/
  remoteMqHandle : Option Nat := none
  opened : Nat := 0
  senders : Sender → SenderPc := fun _ => .idle
  deactivate : DeactivatePc := .running
  log : List HandleEvent := []

namespace Remote

inductive Action
  /-- A thread calls `sendTo`: the worker for a message, the listen thread when reading fails. -/
  | send (t : Sender)
  /-- The next step of a thread in `sendTo`; `ok` is how opening and writing turn out. -/
  | run (t : Sender) (ok : Bool)
  /-- `deactivate` cancels the listen thread, -/
  | cancel
  /-- which ends at once or later, -/
  | endListen
  /-- loads the remote handle -/
  | loadRemote
  /-- and closes it, -/
  | closeRemote
  /-- and, when the listen thread has ended, deletes the task queue. -/
  | deleteQueue
deriving DecidableEq

/-- Whether `m_connectMtx` is taken. -/
def mtxHeld (s : Remote) : Bool := (s.senders .worker).holdsMtx || (s.senders .listen).holdsMtx

def goto (s : Remote) (t : Sender) (pc : SenderPc) : Remote :=
  { s with senders := Function.update s.senders t pc }

/-- The worker takes the next message; the listen thread throws and is over. -/
def returns (s : Remote) : Sender → Remote
  | .worker => s.goto .worker .idle
  | .listen => s.goto .listen .finished

/-- `closeMq`, of a handle that was loaded before. -/
def closes (s : Remote) (handle : Option Nat) : Remote :=
  { s with log := s.log ++ (handle.map HandleEvent.closed).toList }

/-- `openMqWrite`, whose result goes into `m_remoteMqHandle` in either case. -/
def opens (s : Remote) (t : Sender) : Bool → Remote
  | true =>
    { s with
      remoteMqHandle := some s.opened
      opened := s.opened + 1
      log := s.log ++ [HandleEvent.opened s.opened] }.goto t .setConnected
  | false => { s with remoteMqHandle := none }.goto t .load

def writes (s : Remote) (t : Sender) (handle : Option Nat) (ok : Bool) : Remote :=
  let s' := { s with log := s.log ++ (handle.map HandleEvent.written).toList }
  if ok then s'.returns t else s'.goto t .setBroken

def runs (s : Remote) (t : Sender) (ok : Bool) : Option Remote :=
  match s.senders t with
  | .test => some (s.goto t (if s.connected then .load else .lock))
  | .lock => if s.mtxHeld then none else some (s.goto t .close)
  | .close => some ((s.closes s.remoteMqHandle).goto t .open)
  | .open => some (s.opens t ok)
  | .setConnected => some ({ s with connected := true }.goto t .load)
  | .load => some (s.goto t (.write s.remoteMqHandle))
  | .write handle => some (s.writes t handle ok)
  | .setBroken => some ({ s with connected := false }.returns t)
  | .idle | .finished => none

def step (s : Remote) : Action → Option Remote
  | .send t => if s.senders t = .idle then some (s.goto t .test) else none
  | .run t ok => s.runs t ok
  | .cancel =>
    if s.deactivate = .running then some { s with deactivate := .cancelled } else none
  | .endListen =>
    if s.deactivate ≠ .running ∧ s.senders .listen ≠ .finished then some (s.goto .listen .finished)
    else none
  | .loadRemote =>
    if s.deactivate = .cancelled then some { s with deactivate := .loaded s.remoteMqHandle }
    else none
  | .closeRemote =>
    match s.deactivate with
    | .loaded handle => some { s.closes handle with deactivate := .closed handle }
    | .running | .cancelled | .closed _ => none
  | .deleteQueue =>
    -- The listen thread has been joined, and the destructor joins the worker.
    if s.deactivate.isClosed ∧ s.senders .listen = .finished ∧ s.senders .worker = .idle then
      some (s.goto .worker .finished)
    else none

/-! ### The law and the condition -/

/-- `openMqWrite` has returned the handle and it has not been closed. -/
def IsOpen (s : Remote) (handle : Nat) : Prop :=
  HandleEvent.opened handle ∈ s.log ∧ HandleEvent.closed handle ∉ s.log

/-- After a handle was closed it is neither closed again nor written. -/
def Kept (log : List HandleEvent) : Prop :=
  log.Pairwise fun e later => ∀ handle, e = .closed handle →
    later ≠ .closed handle ∧ later ≠ .written handle

structure Lawful (s : Remote) : Prop where
  kept : Kept s.log
  connected_open : s.connected = true → ∃ handle, s.remoteMqHandle = some handle ∧ s.IsOpen handle

/-- The thread is about to write to the handle: it has read it, or will. -/
def Uses (s : Remote) (t : Sender) (handle : Nat) : Prop :=
  s.senders t = .load ∨ s.senders t = .write (some handle)

/-- A handle is closed by `connect` only if `m_connected` is still false, `deactivate` has not closed
it and the other thread is not about to write to it; and by `deactivate` only if it still is the one in
`m_remoteMqHandle`, `m_connected` is false and no thread is about to write to it or has it in
`connect`. The listen thread is not cancelled between closing a handle and opening the next. -/
def Disciplined (s : Remote) : Action → Prop
  | .run t _ => s.senders t = .close → ∀ handle ∈ s.remoteMqHandle,
    s.connected = false ∧ s.deactivate ≠ .closed (some handle) ∧ ∀ t', ¬ s.Uses t' handle
  | .closeRemote => ∀ handle, s.deactivate = .loaded (some handle) →
    s.remoteMqHandle = some handle ∧ s.connected = false ∧
      ∀ t, ¬ s.Uses t handle ∧ s.senders t ≠ .open ∧ s.senders t ≠ .setConnected
  | .endListen => s.senders .listen = .open → s.remoteMqHandle = none
  | _ => True

instance (s : Remote) (t : Sender) (handle : Nat) : Decidable (s.Uses t handle) :=
  inferInstanceAs (Decidable (_ ∨ _))

instance (s : Remote) : ∀ a, Decidable (s.Disciplined a)
  | .run t _ => inferInstanceAs (Decidable (s.senders t = .close → ∀ handle ∈ s.remoteMqHandle, _))
  | .closeRemote =>
    match hpc : s.deactivate with
    | .loaded (some handle) =>
      decidable_of_iff (s.remoteMqHandle = some handle ∧ s.connected = false ∧
          ∀ t, ¬ s.Uses t handle ∧ s.senders t ≠ .open ∧ s.senders t ≠ .setConnected)
        (by simp [Disciplined, hpc])
    | .loaded none | .running | .cancelled | .closed _ => .isTrue (by simp [Disciplined, hpc])
  | .endListen => inferInstanceAs (Decidable (s.senders .listen = .open → s.remoteMqHandle = none))
  | .send _ | .cancel | .loadRemote | .deleteQueue => .isTrue trivial

variable {s s' : Remote} {a : Action} {t : Sender} {handle : Nat}

theorem senders_goto (s : Remote) (t : Sender) (pc : SenderPc) (t' : Sender) :
    (s.goto t pc).senders t' = if t' = t then pc else s.senders t' :=
  Function.update_apply ..

@[simp] theorem closes_none (s : Remote) : s.closes none = s := by simp [closes]

theorem closes_some (s : Remote) (handle : Nat) :
    s.closes (some handle) = { s with log := s.log ++ [.closed handle] } := rfl

/-! ### What a step does -/

/-- All that a thread can do in `sendTo`. -/
inductive Sends (s : Remote) (t : Sender) : Remote → Prop
  | isConnected (hpc : s.senders t = .test) (hconnected : s.connected = true) :
      Sends s t (s.goto t .load)
  | notConnected (hpc : s.senders t = .test) : Sends s t (s.goto t .lock)
  | locks (hpc : s.senders t = .lock) (hfree : ¬ s.mtxHeld = true) : Sends s t (s.goto t .close)
  | closes (hpc : s.senders t = .close) :
      Sends s t ((s.closes s.remoteMqHandle).goto t .open)
  | opens (ok : Bool) (hpc : s.senders t = .open) : Sends s t (s.opens t ok)
  | connects (hpc : s.senders t = .setConnected) :
      Sends s t ({ s with connected := true }.goto t .load)
  | loads (hpc : s.senders t = .load) : Sends s t (s.goto t (.write s.remoteMqHandle))
  | writes {handle : Option Nat} (ok : Bool) (hpc : s.senders t = .write handle) :
      Sends s t (s.writes t handle ok)
  | breaks (hpc : s.senders t = .setBroken) : Sends s t ({ s with connected := false }.returns t)

inductive Steps (s : Remote) : Action → Remote → Prop
  | calls {t : Sender} (hpc : s.senders t = .idle) : Steps s (.send t) (s.goto t .test)
  | sends {t : Sender} {ok : Bool} {s' : Remote} (hsends : s.Sends t s') : Steps s (.run t ok) s'
  | cancels (hrunning : s.deactivate = .running) : Steps s .cancel { s with deactivate := .cancelled }
  | endsListen (hpc : s.senders .listen ≠ .finished) : Steps s .endListen (s.goto .listen .finished)
  | loadsRemote (hcancelled : s.deactivate = .cancelled) :
      Steps s .loadRemote { s with deactivate := .loaded s.remoteMqHandle }
  | closesRemote {handle : Option Nat} (hloaded : s.deactivate = .loaded handle) :
      Steps s .closeRemote { s.closes handle with deactivate := .closed handle }
  | deletesQueue (hlisten : s.senders .listen = .finished) (hworker : s.senders .worker = .idle) :
      Steps s .deleteQueue (s.goto .worker .finished)

theorem runs_cases {ok : Bool} (h : s.runs t ok = some s') : s.Sends t s' := by
  cases hpc : s.senders t with
  | test =>
      simp only [runs, hpc, Option.some.injEq] at h
      split_ifs at h with hconnected
      · exact h ▸ .isConnected hpc hconnected
      · exact h ▸ .notConnected hpc
  | lock =>
      simp only [runs, hpc] at h
      split_ifs at h with hheld
      exact Option.some.inj h ▸ .locks hpc hheld
  | close =>
      simp only [runs, hpc, Option.some.injEq] at h
      exact h ▸ .closes hpc
  | «open» =>
      simp only [runs, hpc, Option.some.injEq] at h
      exact h ▸ .opens ok hpc
  | setConnected =>
      simp only [runs, hpc, Option.some.injEq] at h
      exact h ▸ .connects hpc
  | load =>
      simp only [runs, hpc, Option.some.injEq] at h
      exact h ▸ .loads hpc
  | write handle =>
      simp only [runs, hpc, Option.some.injEq] at h
      exact h ▸ .writes ok hpc
  | setBroken =>
      simp only [runs, hpc, Option.some.injEq] at h
      exact h ▸ .breaks hpc
  | idle | finished => simp [runs, hpc] at h

theorem step_cases (h : s.step a = some s') : s.Steps a s' := by
  cases a with
  | run t ok => exact .sends (runs_cases h)
  | send t =>
      rw [step] at h
      split_ifs at h with hpc
      exact Option.some.inj h ▸ .calls hpc
  | cancel =>
      rw [step] at h
      split_ifs at h with hpc
      exact Option.some.inj h ▸ .cancels hpc
  | endListen =>
      rw [step] at h
      split_ifs at h with hpc
      exact Option.some.inj h ▸ .endsListen hpc.2
  | loadRemote =>
      rw [step] at h
      split_ifs at h with hpc
      exact Option.some.inj h ▸ .loadsRemote hpc
  | closeRemote =>
      cases hpc : s.deactivate with
      | loaded handle =>
          simp only [step, hpc, Option.some.injEq] at h
          exact h ▸ .closesRemote hpc
      | running | cancelled | closed => simp [step, hpc] at h
  | deleteQueue =>
      rw [step] at h
      split_ifs at h with hpc
      exact Option.some.inj h ▸ .deletesQueue hpc.2.1 hpc.2.2

/-! ### The log -/

theorem kept_append {log : List HandleEvent} {e : HandleEvent} : Kept (log ++ [e]) ↔ Kept log ∧
    ∀ handle, .closed handle ∈ log → e ≠ .closed handle ∧ e ≠ .written handle := by
  simp only [Kept, List.pairwise_append, List.pairwise_singleton, true_and, List.mem_singleton,
    forall_eq]
  refine and_congr_right fun _ => ⟨fun h handle hmem => h _ hmem handle rfl, ?_⟩
  rintro h e' hmem handle rfl
  exact h handle hmem

/-- The handles that have been returned or closed. -/
structure Fresh (s : Remote) : Prop where
  opened_lt : ∀ handle, .opened handle ∈ s.log → handle < s.opened
  closed_lt : ∀ handle, .closed handle ∈ s.log → handle < s.opened
  remote_opened : ∀ handle, s.remoteMqHandle = some handle → .opened handle ∈ s.log

/-- What holds as long as every step meets the condition. -/
structure Sound (s : Remote) : Prop where
  kept : Kept s.log
  fresh : s.Fresh
  connected_open : s.connected = true → ∃ handle, s.remoteMqHandle = some handle ∧ s.IsOpen handle
  alone : ∀ t t', (s.senders t).holdsMtx = true → (s.senders t').holdsMtx = true → t = t'
  opening : ∀ t, s.senders t = .open ∨ s.senders t = .setConnected → s.connected = false
  setting : ∀ t, s.senders t = .setConnected →
    ∃ handle, s.remoteMqHandle = some handle ∧ s.IsOpen handle
  loading : ∀ t, s.senders t = .load → ∀ handle, s.remoteMqHandle = some handle → s.IsOpen handle
  writing : ∀ t handle, s.senders t = .write (some handle) → s.IsOpen handle
  remote : ∀ handle, s.remoteMqHandle = some handle → s.IsOpen handle ∨
    (∃ t, s.senders t = .open) ∨ s.deactivate = .closed (some handle)

theorem init : Sound {} := by
  refine ⟨List.Pairwise.nil, ⟨by simp, by simp, by simp⟩, ?_, ?_, ?_, ?_, ?_, ?_, ?_⟩ <;>
    simp [SenderPc.holdsMtx]

namespace Sound

theorem goto (h : s.Sound) {pc : SenderPc}
    (halone : pc.holdsMtx = true → ∀ t', (s.senders t').holdsMtx = true → t' = t)
    (hpc : pc ≠ .open ∧ pc ≠ .setConnected)
    (hload : pc = .load → ∀ handle, s.remoteMqHandle = some handle → s.IsOpen handle)
    (hwrite : ∀ handle, pc = .write (some handle) → s.IsOpen handle)
    (hleave : s.senders t = .open → s.remoteMqHandle = none) : (s.goto t pc).Sound where
  kept := h.kept
  fresh := ⟨h.fresh.opened_lt, h.fresh.closed_lt, h.fresh.remote_opened⟩
  connected_open := h.connected_open
  alone := by
    intro t₁ t₂ h₁ h₂
    simp only [senders_goto] at h₁ h₂
    split_ifs at h₁ h₂ with e₁ e₂ e₂
    · exact e₁.trans e₂.symm
    · exact e₁.trans (halone h₁ t₂ h₂).symm
    · exact (halone h₂ t₁ h₁).trans e₂.symm
    · exact h.alone t₁ t₂ h₁ h₂
  opening := by
    intro t' ht'
    simp only [senders_goto] at ht'
    split_ifs at ht' with e
    · exact absurd ht' (by simp [hpc])
    · exact h.opening t' ht'
  setting := by
    intro t' ht'
    simp only [senders_goto] at ht'
    split_ifs at ht' with e
    · exact absurd ht' hpc.2
    · exact h.setting t' ht'
  loading := by
    intro t' ht'
    simp only [senders_goto] at ht'
    split_ifs at ht' with e
    · exact hload ht'
    · exact h.loading t' ht'
  writing := by
    intro t' handle ht'
    simp only [senders_goto] at ht'
    split_ifs at ht' with e
    · exact hwrite handle ht'
    · exact h.writing t' handle ht'
  remote := by
    intro handle hremote
    obtain hopen | ⟨t', ht'⟩ | hdeact := h.remote handle hremote
    · exact .inl hopen
    · by_cases e : t' = t
      · exact absurd ((hleave (e ▸ ht')).symm.trans hremote) (by simp)
      · exact .inr (.inl ⟨t', by simp [senders_goto, e, ht']⟩)
    · exact .inr (.inr hdeact)

/-- To a place outside of `connect` and before the handle is read. -/
theorem goto_plain (h : s.Sound) {pc : SenderPc} (hpc : pc = .test ∨ pc = .lock ∨ pc = .setBroken ∨
    pc = .idle ∨ pc = .finished) (hleave : s.senders t = .open → s.remoteMqHandle = none) :
    (s.goto t pc).Sound := by
  obtain rfl | rfl | rfl | rfl | rfl := hpc <;>
    exact h.goto (by simp [SenderPc.holdsMtx]) (by simp) (by simp) (by simp) hleave

theorem returns (h : s.Sound) (hleave : s.senders t ≠ .open) : (s.returns t).Sound := by
  cases t with
  | worker => exact h.goto_plain (by simp) fun hpc => absurd hpc hleave
  | listen => exact h.goto_plain (by simp) fun hpc => absurd hpc hleave

theorem isOpen_append (handle : Nat) {e : HandleEvent} (he : e ≠ .closed handle) (h : s.IsOpen handle) :
    IsOpen { s with log := s.log ++ [e] } handle :=
  ⟨List.mem_append_left _ h.1, by simpa [h.2] using he.symm⟩

theorem written (h : s.Sound) (hopen : s.IsOpen handle) :
    Sound { s with log := s.log ++ [.written handle] } where
  kept := kept_append.mpr ⟨h.kept, fun handle' hclosed =>
    ⟨by simp, fun heq => hopen.2 (HandleEvent.written.inj heq ▸ hclosed)⟩⟩
  fresh := ⟨by simpa using h.fresh.opened_lt, by simpa using h.fresh.closed_lt,
    by simpa using h.fresh.remote_opened⟩
  connected_open := by
    intro hconnected
    obtain ⟨handle, hremote, hopen⟩ := h.connected_open hconnected
    exact ⟨handle, hremote, isOpen_append handle (by simp) hopen⟩
  alone := h.alone
  opening := h.opening
  setting := by
    intro t ht
    obtain ⟨handle, hremote, hopen⟩ := h.setting t ht
    exact ⟨handle, hremote, isOpen_append handle (by simp) hopen⟩
  loading t ht handle hremote := isOpen_append handle (by simp) (h.loading t ht handle hremote)
  writing t handle ht := isOpen_append handle (by simp) (h.writing t handle ht)
  remote handle hremote := (h.remote handle hremote).imp_left (isOpen_append handle (by simp))

theorem broken (h : s.Sound) : Sound { s with connected := false } where
  kept := h.kept
  fresh := ⟨h.fresh.opened_lt, h.fresh.closed_lt, h.fresh.remote_opened⟩
  connected_open := by simp
  alone := h.alone
  opening _ _ := rfl
  setting := h.setting
  loading := h.loading
  writing := h.writing
  remote := h.remote

theorem isOpen_of_close (h : s.Sound) (hremote : s.remoteMqHandle = some handle)
    (hopening : ∀ t, s.senders t ≠ .open) (hdeact : s.deactivate ≠ .closed (some handle)) :
    s.IsOpen handle :=
  (h.remote handle hremote).resolve_right fun hor =>
    hor.elim (fun ⟨t, ht⟩ => hopening t ht) hdeact

theorem isOpen_of_closed {other : Nat} (hne : other ≠ handle) (h : s.IsOpen other) :
    IsOpen { s with log := s.log ++ [.closed handle] } other :=
  isOpen_append other (by simpa using hne.symm) h

/-- A handle is closed by whom nobody keeps from it: no thread uses it or has one in `connect`. -/
theorem closed (h : s.Sound) (hremote : s.remoteMqHandle = some handle) (hopen : s.IsOpen handle)
    (hconnected : s.connected = false)
    (hthreads : ∀ t, ¬ s.Uses t handle ∧ s.senders t ≠ .setConnected)
    (hdeact : (∃ t, s.senders t = .open) ∨ s.deactivate = .closed (some handle)) :
    Sound { s with log := s.log ++ [.closed handle] } where
  kept := kept_append.mpr ⟨h.kept, fun handle' hclosed =>
    ⟨fun heq => hopen.2 (HandleEvent.closed.inj heq ▸ hclosed), by simp⟩⟩
  fresh := by
    refine ⟨by simpa using h.fresh.opened_lt, fun handle' hclosed => ?_,
      by simpa using h.fresh.remote_opened⟩
    obtain hclosed | heq := by simpa using hclosed
    · exact h.fresh.closed_lt handle' hclosed
    · exact heq ▸ h.fresh.opened_lt handle hopen.1
  connected_open := by simp [hconnected]
  alone := h.alone
  opening := h.opening
  setting t ht := absurd ht (hthreads t).2
  loading t ht := absurd (Or.inl ht) (hthreads t).1
  writing t handle' ht := by
    refine isOpen_of_closed ?_ (h.writing t handle' ht)
    rintro rfl
    exact (hthreads t).1 (.inr ht)
  remote handle' hremote' := by
    obtain rfl := Option.some.inj (hremote'.symm.trans hremote)
    exact .inr hdeact

/-- Where the holder of the mutex is, it is alone. -/
theorem holds_goto (h : s.Sound) (hholds : (s.senders t).holdsMtx = true) (pc : SenderPc)
    (t₁ t₂ : Sender) (h₁ : ((s.goto t pc).senders t₁).holdsMtx = true)
    (h₂ : ((s.goto t pc).senders t₂).holdsMtx = true) : t₁ = t₂ := by
  have hof : ∀ t', ((s.goto t pc).senders t').holdsMtx = true → t' = t := by
    intro t' ht'
    by_contra hne
    rw [senders_goto, if_neg hne] at ht'
    exact hne (h.alone t' t ht' hholds)
  exact (hof t₁ h₁).trans (hof t₂ h₂).symm

theorem enters (h : s.Sound) (hpc : s.senders t = .close) (hconnected : s.connected = false) :
    (s.goto t .open).Sound where
  kept := h.kept
  fresh := ⟨h.fresh.opened_lt, h.fresh.closed_lt, h.fresh.remote_opened⟩
  connected_open := h.connected_open
  alone := h.holds_goto (by simp [hpc, SenderPc.holdsMtx]) _
  opening _ _ := hconnected
  setting := by
    intro t' ht'
    simp only [senders_goto] at ht'
    split_ifs at ht'
    exact h.setting t' ht'
  loading := by
    intro t' ht'
    simp only [senders_goto] at ht'
    split_ifs at ht'
    exact h.loading t' ht'
  writing := by
    intro t' handle ht'
    simp only [senders_goto] at ht'
    split_ifs at ht'
    exact h.writing t' handle ht'
  remote _ _ := .inr (.inl ⟨t, by simp [senders_goto]⟩)

theorem opens (h : s.Sound) (hpc : s.senders t = .open) (ok : Bool) : (s.opens t ok).Sound := by
  have hconnected := h.opening t (.inl hpc)
  have hholds : (s.senders t).holdsMtx = true := by simp [hpc, SenderPc.holdsMtx]
  have hother : ∀ t', t' ≠ t → s.senders t' ≠ .setConnected := fun t' hne ht' =>
    hne (h.alone t' t (by simp [ht', SenderPc.holdsMtx]) hholds)
  cases ok with
  | true =>
      have hopen : (s.opens t true).IsOpen s.opened := by
        refine ⟨by simp [Remote.opens, Remote.goto], fun hclosed => ?_⟩
        have hold : .closed s.opened ∈ s.log := by simpa [Remote.opens, Remote.goto] using hclosed
        exact absurd (h.fresh.closed_lt _ hold) (lt_irrefl _)
      have hremote : ∀ handle, (s.opens t true).remoteMqHandle = some handle →
          (s.opens t true).IsOpen handle := fun handle heq => Option.some.inj heq ▸ hopen
      refine ⟨kept_append.mpr ⟨h.kept, by simp⟩, ⟨fun handle hmem => ?_, fun handle hmem => ?_,
        fun handle heq => (hremote handle heq).1⟩, fun _ => ⟨_, rfl, hopen⟩,
        h.holds_goto hholds .setConnected, fun _ _ => hconnected, fun _ _ => ⟨_, rfl, hopen⟩,
        fun _ _ => hremote, fun t' handle ht' => ?_, fun handle heq => .inl (hremote handle heq)⟩
      · obtain hmem | rfl := by simpa [Remote.opens, Remote.goto] using hmem
        · exact Nat.lt_succ_of_lt (h.fresh.opened_lt handle hmem)
        · exact Nat.lt_succ_self _
      · have hold : .closed handle ∈ s.log := by simpa [Remote.opens, Remote.goto] using hmem
        exact Nat.lt_succ_of_lt (h.fresh.closed_lt handle hold)
      · simp only [Remote.opens, senders_goto] at ht'
        split_ifs at ht'
        exact isOpen_append handle (by simp) (h.writing t' handle ht')
  | false =>
      refine ⟨h.kept, ⟨h.fresh.opened_lt, h.fresh.closed_lt, by simp [Remote.opens, Remote.goto]⟩,
        fun hc => absurd (hconnected.symm.trans hc) (by simp), h.holds_goto hholds .load,
        fun _ _ => hconnected, fun t' ht' => ?_, by simp [Remote.opens, Remote.goto],
        fun t' handle ht' => ?_, by simp [Remote.opens, Remote.goto]⟩
      · simp only [Remote.opens, senders_goto] at ht'
        split_ifs at ht' with e
        exact absurd ht' (hother t' e)
      · simp only [Remote.opens, senders_goto] at ht'
        split_ifs at ht'
        exact h.writing t' handle ht'

theorem connects (h : s.Sound) (hpc : s.senders t = .setConnected) :
    ({ s with connected := true }.goto t .load).Sound := by
  have hopen := h.setting t hpc
  have hholds : (s.senders t).holdsMtx = true := by simp [hpc, SenderPc.holdsMtx]
  have hother : ∀ t', (s.goto t .load).senders t' ≠ .open ∧
      (s.goto t .load).senders t' ≠ .setConnected := by
    intro t'
    rw [senders_goto]
    split_ifs with e
    · simp
    · have hnot : ¬ (s.senders t').holdsMtx = true := fun ht' => e (h.alone t' t ht' hholds)
      constructor <;> exact fun ht' => hnot (by simp [ht', SenderPc.holdsMtx])
  refine ⟨h.kept, ⟨h.fresh.opened_lt, h.fresh.closed_lt, h.fresh.remote_opened⟩, fun _ => hopen,
    h.holds_goto hholds .load, fun t' ht' => ?_, fun t' ht' => absurd ht' (hother t').2,
    fun t' _ handle heq => ?_, fun t' handle ht' => ?_, fun handle heq => .inl ?_⟩
  · exact absurd ht' (not_or.mpr (hother t'))
  · obtain ⟨handle', heq', hopen⟩ := hopen
    exact Option.some.inj (heq'.symm.trans heq) ▸ hopen
  · simp only [senders_goto] at ht'
    split_ifs at ht'
    exact h.writing t' handle ht'
  · obtain ⟨handle', heq', hopen⟩ := hopen
    exact Option.some.inj (heq'.symm.trans heq) ▸ hopen

theorem deactivates (h : s.Sound) (pc : DeactivatePc)
    (hnot : ∀ handle, s.deactivate ≠ .closed (some handle)) :
    Sound { s with deactivate := pc } where
  kept := h.kept
  fresh := ⟨h.fresh.opened_lt, h.fresh.closed_lt, h.fresh.remote_opened⟩
  connected_open := h.connected_open
  alone := h.alone
  opening := h.opening
  setting := h.setting
  loading := h.loading
  writing := h.writing
  remote handle heq := (h.remote handle heq).imp_right fun hor =>
    .inl (hor.resolve_right (hnot handle))

theorem closes (h : s.Sound) (hpc : s.senders t = .close)
    (hdisc : ∀ handle, s.remoteMqHandle = some handle →
      s.connected = false ∧ s.deactivate ≠ .closed (some handle) ∧ ∀ t', ¬ s.Uses t' handle) :
    ((s.closes s.remoteMqHandle).goto t .open).Sound := by
  have hholds : (s.senders t).holdsMtx = true := by simp [hpc, SenderPc.holdsMtx]
  have halone : ∀ t', s.senders t' = .open ∨ s.senders t' = .setConnected → False := by
    intro t' ht'
    obtain rfl : t' = t := h.alone t' t (by obtain h | h := ht' <;> simp [h, SenderPc.holdsMtx]) hholds
    simp [hpc] at ht'
  cases hremote : s.remoteMqHandle with
  | none =>
      have hconnected : s.connected = false := by
        by_contra hc
        obtain ⟨handle, heq, _⟩ := h.connected_open (by simpa using hc)
        exact absurd (hremote.symm.trans heq) (by simp)
      rw [closes_none]
      exact h.enters hpc hconnected
  | some handle =>
      obtain ⟨hconnected, hdeact, huses⟩ := hdisc handle hremote
      have hopen := h.isOpen_of_close hremote (fun t' ht' => halone t' (.inl ht')) hdeact
      have henters := h.enters hpc hconnected
      rw [closes_some]
      refine henters.closed hremote hopen hconnected (fun t' => ?_)
        (.inl ⟨t, by simp [senders_goto]⟩)
      rw [Uses, senders_goto]
      split_ifs
      · simp
      · exact ⟨huses t', fun ht' => halone t' (.inr ht')⟩

theorem sends (h : s.Sound) {ok : Bool} (hdisc : s.Disciplined (.run t ok))
    (hsends : s.Sends t s') : s'.Sound := by
  cases hsends with
  | isConnected hpc hconnected =>
      refine h.goto (by simp [SenderPc.holdsMtx]) (by simp) (fun _ handle heq => ?_) (by simp)
        (by simp [hpc])
      obtain ⟨handle', heq', hopen⟩ := h.connected_open hconnected
      exact Option.some.inj (heq'.symm.trans heq) ▸ hopen
  | notConnected hpc => exact h.goto_plain (by simp) (by simp [hpc])
  | locks hpc hfree =>
      refine h.goto (fun _ t' ht' => absurd ?_ hfree) (by simp) (by simp) (by simp) (by simp [hpc])
      cases t' <;> simp [mtxHeld, ht']
  | closes hpc => exact h.closes hpc (hdisc hpc)
  | opens ok hpc => exact h.opens hpc ok
  | connects hpc => exact h.connects hpc
  | loads hpc =>
      exact h.goto (by simp [SenderPc.holdsMtx]) (by simp) (by simp)
        (fun handle heq => h.loading t hpc handle (SenderPc.write.inj heq)) (by simp [hpc])
  | @writes handle ok hpc =>
      have hwritten : Sound { s with log := s.log ++ (handle.map HandleEvent.written).toList } := by
        cases handle with
        | none => simpa using h
        | some handle => exact h.written (h.writing t handle hpc)
      rw [writes]
      split_ifs
      · exact hwritten.returns (by simp [hpc])
      · exact hwritten.goto_plain (by simp) (by simp [hpc])
  | breaks hpc => exact h.broken.returns (by simp [hpc])

theorem step (h : s.Sound) (hdisc : s.Disciplined a) (hsteps : s.Steps a s') : s'.Sound := by
  cases hsteps with
  | calls hpc => exact h.goto_plain (by simp) (by simp [hpc])
  | sends hsends => exact h.sends hdisc hsends
  | cancels hrunning => exact h.deactivates .cancelled (by simp [hrunning])
  | endsListen => exact h.goto_plain (by simp) hdisc
  | loadsRemote hcancelled => exact h.deactivates _ (by simp [hcancelled])
  | @closesRemote handle hloaded =>
      have hdeact := h.deactivates (.closed handle) (by simp [hloaded])
      cases handle with
      | none => simpa using hdeact
      | some handle =>
          obtain ⟨hremote, hconnected, hthreads⟩ := hdisc handle hloaded
          have hopen := h.isOpen_of_close hremote (fun t => (hthreads t).2.1) (by simp [hloaded])
          rw [closes_some]
          exact hdeact.closed hremote hopen hconnected
            (fun t => ⟨(hthreads t).1, (hthreads t).2.2⟩) (.inr rfl)
  | deletesQueue _ hworker => exact h.goto_plain (by simp) (by simp [hworker])

end Sound

theorem sound_of_reachable (h : Reachable step Disciplined {} s) : s.Sound :=
  h.invariant Sound init fun _ _ _ hinv hdisc hstep => hinv.step hdisc (step_cases hstep)

/-! ### Steps that do not meet the condition -/

/-- The threads can go on from here in such a way that the law is broken. -/
def Doomed (s : Remote) : Prop := ∃ s', Reachable step (fun _ _ => True) s s' ∧ ¬ s'.Lawful

theorem Doomed.head (h : s'.Doomed) (hstep : s.step a = some s') : s.Doomed := by
  obtain ⟨s'', hreach, hnot⟩ := h
  exact ⟨s'', hreach.head trivial hstep, hnot⟩

theorem doomed_of_connected (hconnected : s.connected = true) (hremote : s.remoteMqHandle = some handle)
    (hclosed : .closed handle ∈ s.log) : s.Doomed := by
  refine ⟨s, .refl, fun hlaw => ?_⟩
  obtain ⟨handle', heq, hopen⟩ := hlaw.connected_open hconnected
  exact hopen.2 (Option.some.inj (hremote.symm.trans heq) ▸ hclosed)

theorem doomed_of_log (log : List HandleEvent) (e : HandleEvent) (hlog : s.log = log ++ [e])
    (hclosed : .closed handle ∈ log) (he : e = .closed handle ∨ e = .written handle) : s.Doomed := by
  refine ⟨s, .refl, fun hlaw => ?_⟩
  obtain ⟨hnot, hnot'⟩ := (kept_append.mp (hlog ▸ hlaw.kept)).2 handle hclosed
  exact he.elim hnot hnot'

/-- A thread that uses a closed handle writes to it. -/
theorem doomed_of_uses (huses : s.Uses t handle) (hremote : s.remoteMqHandle = some handle)
    (hclosed : .closed handle ∈ s.log) : s.Doomed := by
  have hwrite : ∀ s : Remote, s.senders t = .write (some handle) → .closed handle ∈ s.log →
      s.Doomed := by
    intro s hpc hclosed
    have hstep : s.step (.run t true) = some (s.writes t (some handle) true) := by
      simp [step, runs, hpc]
    refine Doomed.head ?_ hstep
    refine doomed_of_log s.log (.written handle) ?_ hclosed (.inr rfl)
    cases t <;> rfl
  obtain hload | hpc := huses
  · have hstep : s.step (.run t true) = some (s.goto t (.write (some handle))) := by
      simp [step, runs, hload, hremote]
    exact (hwrite (s.goto t (.write (some handle))) (by simp [senders_goto]) hclosed).head hstep
  · exact hwrite s hpc hclosed

/-- The worker comes to close a handle that was closed already. -/
theorem doomed_of_worker (hremote : s.remoteMqHandle = some handle) (hclosed : .closed handle ∈ s.log)
    (hconnected : s.connected = false) (hlisten : s.senders .listen = .finished)
    (hpc : s.senders .worker = .idle ∨ s.senders .worker = .test ∨ s.senders .worker = .lock) :
    s.Doomed := by
  have hlock : ∀ s : Remote, s.remoteMqHandle = some handle → .closed handle ∈ s.log →
      s.senders .listen = .finished → s.senders .worker = .lock → s.Doomed := by
    intro s hremote hclosed hlisten hpc
    have hstep : s.step (.run .worker true) = some (s.goto .worker .close) := by
      simp [step, runs, hpc, mtxHeld, hlisten, SenderPc.holdsMtx]
    have hclose : (s.goto .worker .close).step (.run .worker true)
        = some (((s.goto .worker .close).closes (some handle)).goto .worker .open) := by
      have hsame : (s.goto .worker .close).remoteMqHandle = some handle := hremote
      simp [step, runs, senders_goto, hsame]
    refine Doomed.head (Doomed.head ?_ hclose) hstep
    exact doomed_of_log s.log (.closed handle) rfl hclosed (.inl rfl)
  have htest : ∀ s : Remote, s.remoteMqHandle = some handle → .closed handle ∈ s.log →
      s.connected = false → s.senders .listen = .finished → s.senders .worker = .test →
      s.Doomed := by
    intro s hremote hclosed hconnected hlisten hpc
    have hstep : s.step (.run .worker true) = some (s.goto .worker .lock) := by
      simp [step, runs, hpc, hconnected]
    exact (hlock (s.goto .worker .lock) hremote hclosed (by simp [senders_goto, hlisten])
      (by simp [senders_goto])).head hstep
  obtain hidle | hpc | hpc := hpc
  · have hstep : s.step (.send .worker) = some (s.goto .worker .test) := by simp [step, hidle]
    exact (htest (s.goto .worker .test) hremote hclosed hconnected
      (by simp [senders_goto, hlisten]) (by simp [senders_goto])).head hstep
  · exact htest s hremote hclosed hconnected hlisten hpc
  · exact hlock s hremote hclosed hlisten hpc

/-- Which handles are known to be closed. -/
structure Spent (s : Remote) : Prop where
  loaded : ∀ handle, s.deactivate = .loaded (some handle) →
    s.remoteMqHandle = some handle ∨ .closed handle ∈ s.log
  deactivated : ∀ handle, s.deactivate = .closed (some handle) → .closed handle ∈ s.log
  replaced : ∀ t, s.senders t = .open → ∀ handle, s.remoteMqHandle = some handle →
    .closed handle ∈ s.log
  stopped : s.senders .worker = .finished → s.senders .listen = .finished

theorem mem_closes {e : HandleEvent} {closing : Option Nat} (h : e ∈ s.log) :
    e ∈ (s.closes closing).log :=
  List.mem_append_left _ h

theorem closed_mem_closes {closing : Option Nat} (h : closing = some handle) :
    .closed handle ∈ (s.closes closing).log := by
  simp [closes, h]

/-- What a step of a thread does to the log, to the handle and to the threads. -/
structure Moved (s : Remote) (t : Sender) (s' : Remote) : Prop where
  deactivate : s'.deactivate = s.deactivate
  log : ∀ e ∈ s.log, e ∈ s'.log
  others : ∀ t', t' ≠ t → s'.senders t' = s.senders t'
  handle : s'.remoteMqHandle = s.remoteMqHandle ∨ s.senders t = .open
  opening : s'.senders t = .open → ∀ handle, s'.remoteMqHandle = some handle →
    .closed handle ∈ s'.log
  finished : s'.senders t = .finished → t = .listen
  going : s.senders t ≠ .finished

theorem moved_goto (s : Remote) (t : Sender) {pc : SenderPc} (hgoing : s.senders t ≠ .finished)
    (hpc : pc ≠ .open) (hfinished : pc = .finished → t = .listen) : s.Moved t (s.goto t pc) where
  deactivate := rfl
  log _ := id
  others t' hne := by rw [senders_goto, if_neg hne]
  handle := .inl rfl
  opening h := absurd (by simpa [senders_goto] using h) hpc
  finished h := hfinished (by simpa [senders_goto] using h)
  going := hgoing

theorem moved_returns (s : Remote) (t : Sender) (hgoing : s.senders t ≠ .finished) :
    s.Moved t (s.returns t) := by
  cases t <;> exact moved_goto s _ hgoing (by simp) (by simp)

theorem Moved.of_log {s₁ : Remote} (h : s₁.Moved t s') (hsenders : s₁.senders = s.senders)
    (hdeact : s₁.deactivate = s.deactivate) (hremote : s₁.remoteMqHandle = s.remoteMqHandle)
    (hlog : ∀ e ∈ s.log, e ∈ s₁.log) : s.Moved t s' where
  deactivate := h.deactivate.trans hdeact
  log e he := h.log e (hlog e he)
  others t' hne := (h.others t' hne).trans (by rw [hsenders])
  handle := hremote ▸ hsenders ▸ h.handle
  opening := h.opening
  finished := h.finished
  going := hsenders ▸ h.going

theorem moved_of_sends (hsends : s.Sends t s') : s.Moved t s' := by
  cases hsends with
  | isConnected hpc | notConnected hpc | locks hpc | loads hpc =>
      exact moved_goto s t (by simp [hpc]) (by simp) (by simp)
  | closes hpc =>
      refine ⟨rfl, fun _ => mem_closes, fun t' hne => by rw [senders_goto, if_neg hne]; rfl,
        .inl rfl, fun _ handle heq => closed_mem_closes heq, ?_, by simp [hpc]⟩
      simp [senders_goto]
  | opens ok hpc =>
      cases ok with
      | true =>
          refine ⟨rfl, fun _ he => List.mem_append_left _ he,
            fun t' hne => by rw [opens, senders_goto, if_neg hne], .inr hpc, ?_, ?_, by simp [hpc]⟩ <;>
            simp [opens, senders_goto]
      | false =>
          refine ⟨rfl, fun _ => id, fun t' hne => by rw [opens, senders_goto, if_neg hne], .inr hpc,
            ?_, ?_, by simp [hpc]⟩ <;>
            simp [opens, senders_goto]
  | connects hpc =>
      exact (moved_goto { s with connected := true } t (by simp [hpc]) (by simp) (by simp)).of_log
        rfl rfl rfl fun _ => id
  | writes ok hpc =>
      rw [writes]
      split_ifs
      · exact (moved_returns _ t (by simp [hpc])).of_log rfl rfl rfl
          fun _ he => List.mem_append_left _ he
      · exact (moved_goto _ t (by simp [hpc]) (by simp) (by simp)).of_log rfl rfl rfl
          fun _ he => List.mem_append_left _ he
  | breaks hpc =>
      exact (moved_returns { s with connected := false } t (by simp [hpc])).of_log rfl rfl rfl
        fun _ => id

namespace Spent

theorem moved (h : s.Spent) (hsound : s.Sound) (hmoved : s.Moved t s') : s'.Spent where
  loaded handle hloaded := by
    obtain hremote | hclosed := h.loaded handle (hmoved.deactivate ▸ hloaded)
    · obtain hsame | hopen := hmoved.handle
      · exact .inl (hsame.trans hremote)
      · -- `connect` has closed what it is about to replace
        exact .inr (hmoved.log _ (h.replaced t hopen handle hremote))
    · exact .inr (hmoved.log _ hclosed)
  deactivated handle hd := hmoved.log _ (h.deactivated handle (hmoved.deactivate ▸ hd))
  replaced t' ht' handle heq := by
    by_cases hne : t' = t
    · exact hmoved.opening (hne ▸ ht') handle heq
    · have hwas : s.senders t' = .open := hmoved.others t' hne ▸ ht'
      obtain hsame | hopen := hmoved.handle
      · exact hmoved.log _ (h.replaced t' hwas handle (hsame ▸ heq))
      · exact absurd (hsound.alone t' t (by simp [hwas, SenderPc.holdsMtx])
          (by simp [hopen, SenderPc.holdsMtx])) hne
  stopped hw := by
    cases t with
    | worker => exact absurd (hmoved.finished hw) (by simp)
    | listen =>
        have hwas : s.senders .worker = .finished := hmoved.others .worker (by simp) ▸ hw
        exact absurd (h.stopped hwas) hmoved.going

theorem step (h : s.Spent) (hsound : s.Sound) (hsteps : s.Steps a s') : s'.Spent := by
  cases hsteps with
  | @calls t hpc => exact h.moved hsound (moved_goto s t (by simp [hpc]) (by simp) (by simp))
  | sends hsends => exact h.moved hsound (moved_of_sends hsends)
  | cancels => exact ⟨by simp, by simp, h.replaced, h.stopped⟩
  | endsListen hpc => exact h.moved hsound (moved_goto s .listen hpc (by simp) (by simp))
  | loadsRemote =>
      exact ⟨fun handle hd => .inl (DeactivatePc.loaded.inj hd), by simp, h.replaced, h.stopped⟩
  | closesRemote =>
      exact ⟨by simp, fun handle hd => closed_mem_closes (DeactivatePc.closed.inj hd),
        fun t ht handle heq => mem_closes (h.replaced t ht handle heq), h.stopped⟩
  | deletesQueue hlisten =>
      refine ⟨h.loaded, h.deactivated, fun t ht handle heq => h.replaced t ?_ handle heq,
        fun _ => ?_⟩
      · rw [senders_goto] at ht
        split_ifs at ht
        exact ht
      · rw [senders_goto, if_neg (by simp)]
        exact hlisten

end Spent

theorem spent_of_reachable (h : Reachable step Disciplined {} s) : s.Spent :=
  h.invariant_of_reachable Spent ⟨by simp, by simp, by simp, by simp⟩
    fun _ _ _ hreach hinv _ hstep => hinv.step (sound_of_reachable hreach) (step_cases hstep)

/-- After the listen thread has gone in the middle of `connect`, the worker closes its handle. -/
theorem doomed_of_endListen (hsound : s.Sound) (hspent : s.Spent) (hopen : s.senders .listen = .open)
    (hremote : s.remoteMqHandle = some handle) : (s.goto .listen .finished).Doomed := by
  have hclosed := hspent.replaced .listen hopen handle hremote
  have hconnected := hsound.opening .listen (.inl hopen)
  have halone : (s.senders .worker).holdsMtx = false := by
    rw [← Bool.not_eq_true]
    exact fun hholds => absurd (hsound.alone _ .listen hholds (by simp [hopen, SenderPc.holdsMtx]))
      (by simp)
  have hworker : (s.goto .listen .finished).senders .worker = s.senders .worker := by
    simp [senders_goto]
  have hlisten : (s.goto .listen .finished).senders .listen = .finished := by simp [senders_goto]
  cases hpc : s.senders .worker with
  | idle | test | lock =>
      exact doomed_of_worker hremote hclosed hconnected hlisten (by simp [hworker, hpc])
  | close | «open» | setConnected => simp [hpc, SenderPc.holdsMtx] at halone
  | load => exact absurd hclosed (hsound.loading .worker hpc handle hremote).2
  | finished => exact absurd (hspent.stopped hpc) (by simp [hopen])
  | write x =>
      have hstep : (s.goto .listen .finished).step (.run .worker true)
          = some ((s.goto .listen .finished).writes .worker x true) := by
        simp [step, runs, hworker, hpc]
      exact (doomed_of_worker (s := (s.goto .listen .finished).writes .worker x true) hremote
        (List.mem_append_left _ hclosed) hconnected hlisten (.inl rfl)).head hstep
  | setBroken =>
      have hstep : (s.goto .listen .finished).step (.run .worker true)
          = some ({ s.goto .listen .finished with connected := false }.returns .worker) := by
        simp [step, runs, hworker, hpc]
      exact (doomed_of_worker (s := { s.goto .listen .finished with connected := false }.returns .worker)
        hremote hclosed rfl hlisten (.inl rfl)).head hstep

theorem doomed_of_not_disciplined (hsound : s.Sound) (hspent : s.Spent)
    (hstep : s.step a = some s') (hnot : ¬ s.Disciplined a) : s'.Doomed := by
  cases step_cases hstep with
  | calls | cancels | loadsRemote | deletesQueue => exact absurd trivial hnot
  | endsListen =>
      simp only [Disciplined, Classical.not_imp] at hnot
      obtain ⟨handle, hremote⟩ := Option.ne_none_iff_exists'.mp hnot.2
      exact doomed_of_endListen hsound hspent hnot.1 hremote
  | @sends t ok =>
      simp only [Disciplined, not_forall] at hnot
      obtain ⟨hpc, handle, hremote, hnot⟩ := hnot
      rw [Option.mem_def] at hremote
      obtain rfl : (s.closes (some handle)).goto t .open = s' := by
        simpa [step, runs, hpc, hremote] using hstep
      have hclosed : .closed handle ∈ ((s.closes (some handle)).goto t .open).log :=
        closed_mem_closes rfl
      cases hconnected : s.connected with
      | true => exact doomed_of_connected hconnected hremote hclosed
      | false =>
          by_cases hdeact : s.deactivate = .closed (some handle)
          · exact doomed_of_log s.log (.closed handle) rfl (hspent.deactivated handle hdeact) (.inl rfl)
          · obtain ⟨t', huses⟩ : ∃ t', s.Uses t' handle := by
              by_contra hnone
              exact hnot ⟨hconnected, hdeact, not_exists.mp hnone⟩
            have hne : t' ≠ t := by
              rintro rfl
              simp [Uses, hpc] at huses
            refine doomed_of_uses (t := t') ?_ hremote hclosed
            rw [Uses, senders_goto, if_neg hne]
            exact huses
  | @closesRemote closing hloaded =>
      simp only [Disciplined, not_forall] at hnot
      obtain ⟨handle, hloaded', hnot⟩ := hnot
      obtain rfl : closing = some handle := DeactivatePc.loaded.inj (hloaded.symm.trans hloaded')
      have hclosed : .closed handle ∈ (s.closes (some handle)).log := closed_mem_closes rfl
      obtain hremote | hbefore := hspent.loaded handle hloaded
      case inr => exact doomed_of_log s.log (.closed handle) rfl hbefore (.inl rfl)
      cases hconnected : s.connected with
      | true => exact doomed_of_connected hconnected hremote hclosed
      | false =>
          obtain ⟨t, ht⟩ : ∃ t, ¬ (¬ s.Uses t handle ∧ s.senders t ≠ .open ∧
              s.senders t ≠ .setConnected) := by
            by_contra hnone
            exact hnot ⟨hremote, hconnected, fun t => not_not.mp (not_exists.mp hnone t)⟩
          by_cases huses : s.Uses t handle
          · exact doomed_of_uses huses hremote hclosed
          by_cases hopen : s.senders t = .open
          · exact doomed_of_log s.log (.closed handle) rfl
              (hspent.replaced t hopen handle hremote) (.inl rfl)
          · have hset : s.senders t = .setConnected := by
              by_contra hset
              exact ht ⟨huses, hopen, hset⟩
            let s₁ : Remote := { s.closes (some handle) with deactivate := .closed (some handle) }
            have hrun : s₁.step (.run t true) = some ({ s₁ with connected := true }.goto t .load) := by
              have hpc : s₁.senders t = .setConnected := hset
              simp [step, runs, hpc]
            exact (doomed_of_connected (s := { s₁ with connected := true }.goto t .load) rfl hremote
              hclosed).head hrun

/-- **The handle of the remote queue.** While every step meets the condition, no handle is closed
twice or written after it was closed, and `m_connected` is only true while the handle is open. After
a step that does not meet it, the threads can go on in such a way that one of these fails. -/
theorem remote_handle_discipline (s : Remote) (h : Reachable step Disciplined {} s) :
    s.Lawful ∧ ∀ a s', s.step a = some s' → ¬ s.Disciplined a →
      ∃ t, Reachable step (fun _ _ => True) s' t ∧ ¬ t.Lawful := by
  have hsound := sound_of_reachable h
  exact ⟨⟨hsound.kept, hsound.connected_open⟩, fun a s' hstep hnot =>
    doomed_of_not_disciplined hsound (spent_of_reachable h) hstep hnot⟩

/-- The worker connects, a write fails, and it connects again; then the listen thread and
`deactivate` find the second handle broken too. -/
theorem remote_handle_discipline_reconnects : ∃ s : Remote, s.Lawful ∧
    s.log = [.opened 0, .written 0, .closed 0, .opened 1, .written 1, .closed 1] := by
  let sending (ok : Bool) : List Action :=
    [.send .worker, .run .worker true, .run .worker true, .run .worker true, .run .worker true,
      .run .worker true, .run .worker true, .run .worker ok, .run .worker true]
  obtain ⟨s, hs, hlog⟩ : ∃ s, Reachable step Disciplined {} s ∧
      s.log = [.opened 0, .written 0, .closed 0, .opened 1, .written 1, .closed 1] :=
    Runs.exists_reachable
      (List.flatten [sending false, sending false, [.cancel, .loadRemote, .closeRemote]])
      (by decide +kernel)
  exact ⟨s, (remote_handle_discipline s hs).1, hlog⟩

/-- Both threads find that there is no connection. The worker connects and is about to write when the
listen thread closes its handle, and `deactivate` closes it once more. -/
theorem remote_handle_misused :
    ¬ ∀ s : Remote, Reachable step (fun _ _ => True) {} s → s.Lawful := by
  refine Runs.not_forall_reachable
    [.send .worker, .send .listen, .run .worker true, .run .listen true, .run .worker true,
      .run .worker true, .run .worker true, .run .worker true, .run .worker true,
      .run .listen true, .run .listen true, .run .worker true, .cancel, .loadRemote,
      .closeRemote]
    ⟨_, Option.get_mem (by decide +kernel), fun h => ?_⟩
  have hkept : Kept [.opened 0, .closed 0, .written 0, .closed 0] := by
    convert h.kept using 1
    decide +kernel
  simp [Kept] at hkept

end Remote

end Shapeware.MqMessage
