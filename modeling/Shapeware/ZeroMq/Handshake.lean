import Shapeware.ZeroMq.Service

/-!
# The open and close handshake

`open` and `close` write `m_socketOpened` themselves and then wait for the worker to write it. That
works as long as the worker is inside of its loop over messages when `close` asks it to leave: then
it leaves and reports. But the REQ worker also leaves after a reply timeout, on its own, and until it
is back nobody reports to a `close`. The REP worker only leaves when it is asked to.
-/

namespace Shapeware.ZeroMq

open Runs Stepped

/-- Where a worker is, as far as the handshake is concerned. -/
inductive Phase
  /-- On the way to test whether the socket is to be opened. -/
  | away
  /-- Waiting for the socket to be opened. -/
  | parked
  | opening
  /-- After the socket was reported as opened, and before it is reported as closed. -/
  | inside
  /-- Inside, and waiting for something to do. -/
  | asleep
  | finished
deriving DecidableEq

/-- What a step of the worker does for the handshake, while nothing throws and nobody stops it. -/
inductive Moves (imp imp' : Imp) : Phase → Phase → Prop
  | stay (p : Phase) (hsame : imp'.socketOpened = imp.socketOpened) : Moves imp imp' p p
  | park (hstate : imp.requireSocketState = .close)
      (hsame : imp'.socketOpened = imp.socketOpened) : Moves imp imp' .away .parked
  | start (hstate : imp.requireSocketState = .open)
      (hsame : imp'.socketOpened = imp.socketOpened) : Moves imp imp' .away .opening
  | enter (hopened : imp'.socketOpened = true) : Moves imp imp' .opening .inside
  | sleep (hstate : imp.requireSocketState = .open)
      (hsame : imp'.socketOpened = imp.socketOpened) : Moves imp imp' .inside .asleep
  | leave (hclosed : imp'.socketOpened = false) : Moves imp imp' .inside .away

/-- From inside, a worker that is asked to leave stays there or reports that it has left. -/
theorem Moves.of_inside {imp imp' : Imp} {p : Phase} (h : Moves imp imp' .inside p)
    (hstate : imp.requireSocketState = .close) : p = .inside ∨ imp'.socketOpened = false := by
  cases h with
  | stay => exact .inl rfl
  | sleep hopen => exact absurd hopen (by simp [hstate])
  | leave hclosed => exact .inr hclosed

/-- A worker that takes part in the handshake. The two ranks fall on the ways in and out. -/
structure Handshaking {W : Type} (P : Program W) where
  phase : W → Phase
  openRank : W → Nat
  closeRank : W → Nat
  phase_start : phase P.start = .away
  notified : ∀ w, phase (P.notified w) = phase w ∨
    phase w = .parked ∧ phase (P.notified w) = .away ∨
    phase w = .asleep ∧ phase (P.notified w) = .inside
  /-- A worker that waits and has released `m_mux` is woken by a notification. -/
  notified_free : ∀ w, P.holdsMux w = false →
    phase (P.notified w) ≠ .parked ∧ phase (P.notified w) ≠ .asleep
  opening_holds : ∀ w, phase w = .opening → P.holdsMux w = true
  step : ∀ imp w outcome r, P.step imp w outcome = some r → outcome ≠ .threw →
    imp.runThd = true → r.imp.requireSocketState = imp.requireSocketState ∧
      r.imp.runThd = true ∧ Moves imp r.imp (phase w) (phase r.worker)
  goes_in : ∀ imp w, imp.runThd = true → imp.requireSocketState = .open →
    phase w = .away ∨ phase w = .opening → ∃ outcome r, outcome ≠ .threw ∧
      P.step imp w outcome = some r ∧ openRank r.worker < openRank w
  goes_out : ∀ imp w, imp.runThd = true → imp.requireSocketState = .close →
    phase w = .inside → ∃ outcome r, outcome ≠ .threw ∧
      P.step imp w outcome = some r ∧ closeRank r.worker < closeRank w

/-- Runs of a single controller on a service that is not stopped, in which nothing throws. -/
def ControllerRun (a : Action Unit) : Prop := NoThrow a ∧ a ≠ .deactivate ()

instance (a : Action Unit) : Decidable (ControllerRun a) := inferInstanceAs (Decidable (_ ∧ _))

/-- The controller is in the condition wait of `open`. -/
def ThreadPc.inOpen (pc : ThreadPc) : Prop := pc = .openReady ∨ pc = .openWait

/-- The controller is in the condition wait of `close`. -/
def ThreadPc.inClose (pc : ThreadPc) : Prop := pc = .closeReady ∨ pc = .closeWait

instance (pc : ThreadPc) : Decidable pc.inClose := inferInstanceAs (Decidable (_ ∨ _))

/-- The flags, the worker and the controller are in step. -/
structure InStep (imp : Imp) (p : Phase) (pc : ThreadPc) : Prop where
  runThd : imp.runThd = true
  not_finished : p ≠ .finished
  parked_closed : p = .parked → imp.requireSocketState = .close
  opening_open : p = .opening → imp.requireSocketState = .open
  asleep_open : p = .asleep → imp.requireSocketState = .open
  inside_opened : p = .inside ∨ p = .asleep → imp.socketOpened = true
  not_stopping : pc ≠ .deactivating ∧ pc ≠ .joining
  idle_closed : pc = .idle → imp.requireSocketState = .close → p ≠ .inside
  open_open : pc.inOpen → imp.requireSocketState = .open
  close_closed : pc.inClose → imp.requireSocketState = .close ∧
    (p = .inside ∨ imp.socketOpened = false)

namespace InStep

variable {imp imp' : Imp} {p p' : Phase} {pc : ThreadPc}

theorem moves (h : InStep imp p pc) (hmoves : Moves imp imp' p p')
    (hstate : imp'.requireSocketState = imp.requireSocketState) (hrun : imp'.runThd = true) :
    InStep imp' p' pc := by
  obtain ⟨_, h1, h2, h3, h4, h5, h6, h7, h8, h9⟩ := h
  cases hmoves <;> constructor <;> grind

theorem notifiesReady (h : InStep imp p pc) : InStep imp p pc.notified := by
  obtain ⟨h0, h1, h2, h3, h4, h5, h6, h7, h8, h9⟩ := h
  cases pc <;> constructor <;> simp_all [ThreadPc.notified, ThreadPc.inOpen, ThreadPc.inClose]

/-- A worker that is notified, by whomever, wakes up at most. -/
theorem notifies (h : InStep imp p pc)
    (hwakes : p' = p ∨ p = .parked ∧ p' = .away ∨ p = .asleep ∧ p' = .inside) :
    InStep imp p' pc := by
  obtain ⟨h0, h1, h2, h3, h4, h5, h6, h7, h8, h9⟩ := h
  obtain rfl | ⟨rfl, rfl⟩ | ⟨rfl, rfl⟩ := hwakes
  · constructor <;> assumption
  · constructor <;> grind
  · constructor <;> grind

/-- What the threads do not read does not matter. -/
theorem congr (h : InStep imp p pc) (hopened : imp'.socketOpened = imp.socketOpened)
    (hstate : imp'.requireSocketState = imp.requireSocketState)
    (hrun : imp'.runThd = imp.runThd) : InStep imp' p pc := by
  obtain ⟨h0, h1, h2, h3, h4, h5, h6, h7, h8, h9⟩ := h
  constructor <;> simp_all

theorem returnsOpen (h : InStep imp p pc) (hpc : pc.inOpen) : InStep imp p .idle := by
  have hstate := h.open_open hpc
  obtain ⟨h0, h1, h2, h3, h4, h5, h6, h7, h8, h9⟩ := h
  constructor <;> simp_all [ThreadPc.inOpen, ThreadPc.inClose]

theorem blocksOpen (h : InStep imp p pc) (hpc : pc.inOpen) : InStep imp p .openWait := by
  have hstate := h.open_open hpc
  obtain ⟨h0, h1, h2, h3, h4, h5, h6, h7, h8, h9⟩ := h
  constructor <;> simp_all [ThreadPc.inOpen, ThreadPc.inClose]

/-- When `close` returns, the worker has left. -/
theorem returnsClose (h : InStep imp p pc) (hopened : imp.socketOpened = false) :
    InStep imp p .idle := by
  obtain ⟨h0, h1, h2, h3, h4, h5, h6, h7, h8, h9⟩ := h
  constructor <;> simp_all [ThreadPc.inOpen, ThreadPc.inClose]

theorem blocksClose (h : InStep imp p pc) (hpc : pc.inClose) : InStep imp p .closeWait := by
  have hclosed := h.close_closed hpc
  obtain ⟨h0, h1, h2, h3, h4, h5, h6, h7, h8, h9⟩ := h
  constructor <;> simp_all [ThreadPc.inOpen, ThreadPc.inClose]

end InStep

section Handshake

variable {W : Type} {P : Program W} {H : Handshaking P} {s s' : Service W Unit} {a : Action Unit}

/-- `close` does not ask a worker that has left on its own and is not back yet. -/
def ClosesInside (H : Handshaking P) (s : Service W Unit) (a : Action Unit) : Prop :=
  a = .close () → s.imp.requireSocketState = .open → H.phase s.worker ≠ .away

instance (H : Handshaking P) (s : Service W Unit) (a : Action Unit) :
    Decidable (ClosesInside H s a) :=
  inferInstanceAs (Decidable (_ → _ → _))

def Agrees (H : Handshaking P) (s : Service W Unit) : Prop :=
  InStep s.imp (H.phase s.worker) (s.threads ())

theorem Agrees.init (H : Handshaking P) : Agrees H (Service.init P) := by
  constructor <;> simp [Service.init, H.phase_start, ThreadPc.inOpen, ThreadPc.inClose]

theorem Agrees.works (h : Agrees H s) {outcome : Outcome} {r : Stepped W}
    (hwork : P.step s.imp s.worker outcome = some r) (hthrow : outcome ≠ .threw) :
    Agrees H (s.works r) := by
  obtain ⟨hstate, hrun, hmoves⟩ := H.step _ _ _ _ hwork hthrow h.runThd
  have hmoved := InStep.moves h hmoves hstate hrun
  rw [Agrees, Service.works]
  cases r.notifyReady with
  | true => exact hmoved.notifiesReady
  | false => exact hmoved

/-- `open` wakes a parked worker, which then finds what it was waiting for. -/
theorem Agrees.opens (h : Agrees H s) (henter : s.CanEnter P ())
    (hstate : s.imp.requireSocketState = .close) :
    InStep { s.imp with socketOpened := false, requireSocketState := .open }
      (H.phase (P.notified s.worker)) .openReady := by
  obtain ⟨hidle, hmux⟩ := henter
  have haway : H.phase (P.notified s.worker) = .away := by
    have hwakes := H.notified s.worker
    have hfree := H.notified_free s.worker hmux
    cases hphase : H.phase s.worker with
    | away | parked => simp_all
    | opening => exact absurd (h.opening_open hphase) (by simp [hstate])
    | inside => exact absurd hphase (h.idle_closed hidle hstate)
    | asleep => exact absurd (h.asleep_open hphase) (by simp [hstate])
    | finished => exact absurd hphase h.not_finished
  rw [haway]
  constructor <;> simp [h.runThd, ThreadPc.inOpen, ThreadPc.inClose]

/-- `close` wakes a worker that sleeps inside. -/
theorem Agrees.closes (h : Agrees H s) (henter : s.CanEnter P ())
    (hstate : s.imp.requireSocketState = .open) (haway : H.phase s.worker ≠ .away) :
    InStep { s.imp with socketOpened := true, requireSocketState := .close }
      (H.phase (P.notified s.worker)) .closeReady := by
  obtain ⟨hidle, hmux⟩ := henter
  have hinside : H.phase (P.notified s.worker) = .inside := by
    have hwakes := H.notified s.worker
    have hfree := H.notified_free s.worker hmux
    cases hphase : H.phase s.worker with
    | away => exact absurd hphase haway
    | parked => exact absurd (h.parked_closed hphase) (by simp [hstate])
    | opening => exact absurd (H.opening_holds _ hphase) (by simp [hmux])
    | inside | asleep => simp_all
    | finished => exact absurd hphase h.not_finished
  rw [hinside]
  constructor <;> simp [h.runThd, ThreadPc.inOpen, ThreadPc.inClose]

theorem Agrees.step (h : Agrees H s) (hrun : ControllerRun a) (hinside : ClosesInside H s a)
    (hstep : Service.step P s a = some s') : Agrees H s' := by
  cases Service.step_cases hstep with
  | opening henter hstate =>
      simpa [Agrees] using Agrees.opens h henter hstate
  | closing henter hstate =>
      simpa [Agrees] using Agrees.closes h henter hstate (hinside rfl hstate)
  | openAlready | closeAlready | refuses => exact h
  | @accepts _ msg =>
      have hsame : InStep { s.imp with messageToSend := msg, sendMessage := true }
          (H.phase s.worker) (s.threads ()) := InStep.congr h rfl rfl rfl
      exact hsame.notifies (H.notified s.worker)
  | stops => exact absurd rfl hrun.2
  | opened hpc hopened => simpa [Agrees] using InStep.returnsOpen h (hpc ▸ .inl rfl)
  | openWaits hpc hopened => simpa [Agrees] using InStep.blocksOpen h (hpc ▸ .inl rfl)
  | closed hpc hopened => simpa [Agrees] using InStep.returnsClose h hopened
  | closeWaits hpc hopened => simpa [Agrees] using InStep.blocksClose h (hpc ▸ .inl rfl)
  | notifies hpc => exact absurd hpc h.not_stopping.1
  | joins hpc => exact absurd hpc h.not_stopping.2
  | wakes => simpa [Agrees] using InStep.notifiesReady h
  | registersOnMessage | registersOnReqTimeout => exact InStep.congr h rfl rfl rfl
  | works hwork => exact h.works hwork fun hthrew => hrun.1 (hthrew ▸ rfl)
  | wakesWorker => exact InStep.notifies h (H.notified s.worker)

/-! ### Progress -/

/-- Continuations in which only the worker moves, and nothing throws. -/
def WorkerRun (a : Action Unit) : Prop := NoThrow a ∧ a.isWorker = true

/-- Whatever the controller waits for, the worker alone can bring it about. -/
structure NotStuck (P : Program W) (s : Service W Unit) : Prop where
  in_open : (s.threads ()).inOpen →
    Leads (Service.step P) (fun _ a => WorkerRun a) s fun s => s.imp.socketOpened = true
  in_close : (s.threads ()).inClose →
    Leads (Service.step P) (fun _ a => WorkerRun a) s fun s => s.imp.socketOpened = false

theorem step_worker {outcome : Outcome} {r : Stepped W}
    (hwork : P.step s.imp s.worker outcome = some r) :
    Service.step P s (.worker outcome) = some (s.works r) := by
  rw [Service.step, hwork]
  rfl

theorem Agrees.leads_opened (h : Agrees H s) (hstate : s.imp.requireSocketState = .open) :
    Leads (Service.step P) (fun _ a => WorkerRun a) s fun s => s.imp.socketOpened = true := by
  refine leads_of_rank (fun s => Agrees H s ∧ s.imp.requireSocketState = .open)
    (fun s => H.openRank s.worker) ?_ ⟨h, hstate⟩
  rintro s ⟨h, hstate⟩ hopened
  have hphase : H.phase s.worker = .away ∨ H.phase s.worker = .opening := by
    have hinside := mt h.inside_opened hopened
    have hparked := mt h.parked_closed (by simp [hstate])
    have hfinished := h.not_finished
    cases hphase : H.phase s.worker <;> simp_all
  obtain ⟨outcome, r, hthrow, hwork, hrank⟩ := H.goes_in s.imp s.worker h.runThd hstate hphase
  exact ⟨.worker outcome, s.works r, ⟨by simpa [NoThrow] using hthrow, rfl⟩, step_worker hwork,
    ⟨h.works hwork hthrow, ((H.step _ _ _ _ hwork hthrow h.runThd).1).trans hstate⟩, hrank⟩

theorem Agrees.leads_closed (h : Agrees H s) (hstate : s.imp.requireSocketState = .close)
    (hphase : H.phase s.worker = .inside ∨ s.imp.socketOpened = false) :
    Leads (Service.step P) (fun _ a => WorkerRun a) s fun s => s.imp.socketOpened = false := by
  refine leads_of_rank (fun s => Agrees H s ∧ s.imp.requireSocketState = .close ∧
    (H.phase s.worker = .inside ∨ s.imp.socketOpened = false))
    (fun s => H.closeRank s.worker) ?_ ⟨h, hstate, hphase⟩
  rintro s ⟨h, hstate, hphase⟩ hopened
  have hinside := hphase.resolve_right hopened
  obtain ⟨outcome, r, hthrow, hwork, hrank⟩ := H.goes_out s.imp s.worker h.runThd hstate hinside
  obtain ⟨hsame, _, hmoves⟩ := H.step _ _ _ _ hwork hthrow h.runThd
  refine ⟨.worker outcome, s.works r, ⟨by simpa [NoThrow] using hthrow, rfl⟩, step_worker hwork,
    ⟨h.works hwork hthrow, hsame.trans hstate, ?_⟩, hrank⟩
  rw [hinside] at hmoves
  exact hmoves.of_inside hstate

theorem Agrees.notStuck (h : Agrees H s) : NotStuck P s where
  in_open hpc := h.leads_opened (h.open_open hpc)
  in_close hpc := h.leads_closed (h.close_closed hpc).1 (h.close_closed hpc).2

/-- A worker that is outside when it is told to keep the socket closed stays there. -/
theorem Moves.of_outside {imp imp' : Imp} {p p' : Phase} (h : Moves imp imp' p p')
    (hp : p = .away ∨ p = .parked) (hstate : imp.requireSocketState = .close) :
    (p' = .away ∨ p' = .parked) ∧ imp'.socketOpened = imp.socketOpened := by
  cases h with
  | stay _ hsame => exact ⟨hp, hsame⟩
  | park _ hsame => exact ⟨.inr rfl, hsame⟩
  | start hopen => exact absurd hopen (by simp [hstate])
  | enter | sleep | leave => simp at hp

/-- Once the socket is required to be closed and reported as opened while the worker is outside,
nothing the worker can do reports it as closed. -/
theorem not_leads_closed (H : Handshaking P) (hrun : s.imp.runThd = true)
    (hstate : s.imp.requireSocketState = .close) (hopened : s.imp.socketOpened = true)
    (hphase : H.phase s.worker = .away ∨ H.phase s.worker = .parked) :
    ¬ Leads (Service.step P) (fun _ a => WorkerRun a) s fun s => s.imp.socketOpened = false := by
  refine not_leads_of_invariant (fun s => s.imp.runThd = true ∧
    s.imp.requireSocketState = .close ∧ s.imp.socketOpened = true ∧
    (H.phase s.worker = .away ∨ H.phase s.worker = .parked)) ⟨hrun, hstate, hopened, hphase⟩ ?_
    fun s h => by simp [h.2.2.1]
  rintro s a s' ⟨hrun, hstate, hopened, hphase⟩ ⟨hthrow, hworker⟩ hstep
  cases Service.step_cases hstep with
  | works hwork =>
      obtain ⟨hsame, hrun', hmoves⟩ := H.step _ _ _ _ hwork (fun hthrew => hthrow (hthrew ▸ rfl)) hrun
      obtain ⟨hphase', hopened'⟩ := hmoves.of_outside hphase hstate
      exact ⟨hrun', hsame.trans hstate, hopened'.trans hopened, hphase'⟩
  | _ => exact absurd hworker (by simp [Action.isWorker])

/-- `close` gets stuck whenever it asks a worker that has left on its own. -/
theorem stuck_of_closes_away (H : Handshaking P) (hrun : s.imp.runThd = true)
    (hstate : s.imp.requireSocketState = .open) (haway : H.phase s.worker = .away) :
    ¬ NotStuck P (s.closes P ()) := by
  intro h
  have hcloses : s.imp.close =
      ({ s.imp with socketOpened := true, requireSocketState := .close }, true) := if_pos hstate
  have hphase : H.phase (P.notified s.worker) = .away := by
    obtain hsame | ⟨hparked, _⟩ | ⟨hasleep, _⟩ := H.notified s.worker
    · rw [hsame, haway]
    · exact absurd hparked (by simp [haway])
    · exact absurd hasleep (by simp [haway])
  refine not_leads_closed H ?_ ?_ ?_ ?_ (h.in_close ?_) <;>
    simp [Service.closes, hcloses, hrun, hphase, ThreadPc.inClose]

/-- While `close` only asks a worker that is inside, nobody gets stuck. -/
theorem agrees_of_reachable
    (h : Reachable (Service.step P) (fun s a => ControllerRun a ∧ ClosesInside H s a)
      (Service.init P) s) : Agrees H s :=
  h.invariant (Agrees H) (Agrees.init H) fun _ _ _ hinv hallowed hstep =>
    hinv.step hallowed.1 hallowed.2 hstep

end Handshake

end Shapeware.ZeroMq
