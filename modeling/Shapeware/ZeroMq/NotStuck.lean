import Shapeware.ZeroMq.Phases

/-!
# Who gets stuck in the handshake

The REP worker is always inside when `close` asks it, since it only leaves when it is asked to. The
REQ worker is not: after a reply timeout it is outside for a while, and a `close` at that moment
waits forever.
-/

namespace Shapeware.ZeroMq

open Runs Stepped

/-- Where the REP worker has decided to close its socket. -/
def RepWorker.leaving (w : RepWorker) : Prop :=
  w.pc = .unbind ∨ w.pc = .close ∨ w.pc = .reportClosed

/-- The REP worker only leaves when it is asked to, and comes back before `open` returns. -/
structure LeavesWhenAsked (s : Service RepWorker Unit) : Prop where
  leaving_closed : s.worker.leaving → s.imp.requireSocketState = .close
  away_closed : s.worker.phase = .away → s.imp.requireSocketState = .close ∨
    (s.threads ()).inOpen ∧ s.imp.socketOpened = false

theorem RepWorker.step_leaving {imp : Imp} {w : RepWorker} {outcome : Outcome}
    {r : Stepped RepWorker} (h : w.step imp outcome = some r) (hthrow : outcome ≠ .threw)
    (hrun : imp.runThd = true) :
    (r.worker.leaving → w.leaving ∨ imp.requireSocketState = .close) ∧
      (r.worker.phase = .away →
        w.leaving ∨ w.phase = .away ∧ r.imp.socketOpened = imp.socketOpened) := by
  obtain ⟨pc, socket⟩ := w
  cases pc with
  | unbind | close | reportClosed =>
      exact ⟨fun _ => .inl (by simp [RepWorker.leaving]), fun _ => .inl (by simp [RepWorker.leaving])⟩
  | loop | lock | checkRun | unlock | clearSend =>
      obtain ⟨rfl, rfl⟩ := goes_cases h
      simp [RepWorker.leaving, RepWorker.phase, RepWorker.goto, hrun]
  | relock input =>
      obtain ⟨rfl, rfl⟩ := goes_cases h
      cases input <;> simp [RepWorker.leaving, RepWorker.phase, RepWorker.goto]
  | checkClose =>
      obtain ⟨rfl, rfl⟩ := goes_cases h
      cases imp.requireSocketState <;>
        simp [RepWorker.leaving, RepWorker.phase, RepWorker.goto, hrun]
  | waitOpen wait =>
      obtain ⟨wait', hgoes, rfl, rfl⟩ | ⟨rfl, _, hdone⟩ := waits_cases h
      · cases hgoes <;> simp [RepWorker.leaving, RepWorker.phase, RepWorker.goto]
      · obtain ⟨rfl, rfl⟩ := goes_cases hdone
        simp [RepWorker.leaving, RepWorker.phase, RepWorker.goto]
  | waitReply wait =>
      obtain ⟨wait', hgoes, rfl, rfl⟩ | ⟨rfl, _, hdone⟩ := waits_cases h
      · cases hgoes <;> simp [RepWorker.leaving, RepWorker.phase, RepWorker.goto]
      · split_ifs at hdone <;> obtain ⟨rfl, rfl⟩ := goes_cases hdone <;>
          simp [RepWorker.leaving, RepWorker.phase, RepWorker.goto]
  | create | bind | send =>
      obtain ⟨rfl, rfl⟩ | ⟨rfl, _⟩ := operates_cases h
      · simp [RepWorker.leaving, RepWorker.phase, RepWorker.goto]
      · exact absurd rfl hthrow
  | reportOpened =>
      obtain ⟨rfl, rfl⟩ := reports_cases h
      simp [RepWorker.leaving, RepWorker.phase, RepWorker.goto]
  | poll =>
      obtain ⟨input, rfl, rfl⟩ | ⟨rfl, _⟩ := polls_cases h
      · simp [RepWorker.leaving, RepWorker.phase, RepWorker.goto]
      · exact absurd rfl hthrow
  | recv =>
      obtain ⟨request, rfl, rfl⟩ | ⟨rfl, _⟩ := receives_cases h
      · cases request <;> simp [RepWorker.leaving, RepWorker.phase, RepWorker.goto]
      · exact absurd rfl hthrow
  | onMessage =>
      obtain ⟨rfl, rfl⟩ := calls_cases h
      simp [RepWorker.leaving, RepWorker.phase, RepWorker.goto]
  | finished => cases h

theorem leaving_notified (w : RepWorker) : w.notified.leaving ↔ w.leaving := by
  obtain ⟨pc, socket⟩ := w
  cases pc <;> simp [RepWorker.notified, RepWorker.leaving]

theorem leaving_holds {w : RepWorker} (h : w.leaving) : w.holdsMux = true := by
  obtain ⟨pc, socket⟩ := w
  obtain rfl | rfl | rfl : pc = .unbind ∨ pc = .close ∨ pc = .reportClosed := h <;> rfl

namespace LeavesWhenAsked

variable {s s' : Service RepWorker Unit} {a : Action Unit}

theorem works (h : LeavesWhenAsked s) (hagrees : Agrees handshakingRep s) {outcome : Outcome}
    {r : Stepped RepWorker} (hwork : s.worker.step s.imp outcome = some r)
    (hthrow : outcome ≠ .threw) : LeavesWhenAsked (s.works r) := by
  obtain ⟨hleaving, haway⟩ := RepWorker.step_leaving hwork hthrow hagrees.runThd
  obtain ⟨hstate, _, _⟩ := RepWorker.step_phase hwork hthrow hagrees.runThd
  have hclosed : s.worker.leaving → (s.works r).imp.requireSocketState = .close :=
    fun hleaves => hstate.trans (h.leaving_closed hleaves)
  refine ⟨fun hleaves => ?_, fun hphase => ?_⟩
  · obtain hleaves | hclose := hleaving hleaves
    · exact hclosed hleaves
    · exact hstate.trans hclose
  · obtain hleaves | ⟨hphase, hopened⟩ := haway hphase
    · exact .inl (hclosed hleaves)
    · refine (h.away_closed hphase).imp (fun hclose => hstate.trans hclose) ?_
      rintro ⟨hpc, hnot⟩
      refine ⟨?_, hopened.trans hnot⟩
      rw [Service.works]
      split_ifs
      · obtain hpc | hpc := hpc <;> simp [hpc, ThreadPc.notified, ThreadPc.inOpen]
      · exact hpc

/-- A notification, or a step of the controller that stays in `open`. -/
theorem frame (h : LeavesWhenAsked s) (hagrees : Agrees handshakingRep s)
    (hworker : s'.worker = s.worker ∨ s'.worker = s.worker.notified)
    (hstate : s'.imp.requireSocketState = s.imp.requireSocketState)
    (hopened : s'.imp.socketOpened = s.imp.socketOpened)
    (hpc : (s.threads ()).inOpen → (s'.threads ()).inOpen) : LeavesWhenAsked s' := by
  have hleaving : s'.worker.leaving → s.worker.leaving := by
    obtain hsame | hnotified := hworker
    · exact fun hleaves => hsame ▸ hleaves
    · exact fun hleaves => (leaving_notified _).mp (hnotified ▸ hleaves)
  have haway : s'.worker.phase = .away → s.worker.phase = .away ∨
      s.imp.requireSocketState = .close := by
    intro haway
    obtain hsame | hnotified := hworker
    · exact .inl (hsame ▸ haway)
    · rw [hnotified] at haway
      obtain hsame | ⟨hparked, _⟩ | ⟨_, hinside⟩ := handshakingRep.notified s.worker
      · exact .inl (hsame.symm.trans haway)
      · exact .inr (hagrees.parked_closed hparked)
      · cases haway.symm.trans hinside
  refine ⟨fun hleaves => hstate.trans (h.leaving_closed (hleaving hleaves)), fun hphase => ?_⟩
  rw [hstate, hopened]
  obtain hphase | hclose := haway hphase
  · exact (h.away_closed hphase).imp_right fun hwaits => ⟨hpc hwaits.1, hwaits.2⟩
  · exact .inl hclose

theorem step (h : LeavesWhenAsked s) (hagrees : Agrees handshakingRep s) (hrun : ControllerRun a)
    (hstep : Service.step workerRep s a = some s') : LeavesWhenAsked s' := by
  cases Service.step_cases hstep with
  | opening henter =>
      refine ⟨fun hleaves => ?_, fun _ => .inr ⟨by simp [ThreadPc.inOpen], rfl⟩⟩
      have hmux := leaving_holds ((leaving_notified _).mp hleaves)
      exact absurd (hmux.symm.trans henter.2) (by simp)
  | closing => exact ⟨fun _ => rfl, fun _ => .inl rfl⟩
  | openAlready | closeAlready | refuses | registersOnMessage | registersOnReqTimeout =>
      exact h.frame hagrees (.inl rfl) rfl rfl id
  | accepts => exact h.frame hagrees (.inr rfl) rfl rfl id
  | stops => exact absurd rfl hrun.2
  | opened hpc hopened =>
      have hopen := hagrees.open_open (.inl hpc)
      refine ⟨h.leaving_closed, fun hphase => ?_⟩
      obtain hclose | ⟨_, hnot⟩ := h.away_closed hphase
      · exact .inl hclose
      · exact absurd (hopened.symm.trans hnot) (by simp)
  | openWaits => exact h.frame hagrees (.inl rfl) rfl rfl fun _ => by simp [ThreadPc.inOpen]
  | closed hpc | closeWaits hpc =>
      have hclose := (hagrees.close_closed (.inl hpc)).1
      exact ⟨fun _ => hclose, fun _ => .inl hclose⟩
  | notifies hpc => exact absurd hpc hagrees.not_stopping.1
  | joins hpc => exact absurd hpc hagrees.not_stopping.2
  | wakes =>
      refine h.frame hagrees (.inl rfl) rfl rfl fun hpc => ?_
      obtain hpc | hpc := hpc <;> simp [hpc, ThreadPc.notified, ThreadPc.inOpen]
  | works hwork => exact h.works hagrees hwork fun hthrew => hrun.1 (hthrew ▸ rfl)
  | wakesWorker => exact h.frame hagrees (.inr rfl) rfl rfl id

end LeavesWhenAsked

/-- Whenever `close` asks the REP worker, it is inside. -/
theorem closesInside_rep {s : Service RepWorker Unit}
    (h : Reachable (Service.step workerRep) (fun _ a => ControllerRun a)
      (Service.init workerRep) s) :
    Agrees handshakingRep s ∧ LeavesWhenAsked s := by
  refine h.invariant (fun s => Agrees handshakingRep s ∧ LeavesWhenAsked s)
    ⟨Agrees.init handshakingRep, ?_⟩ ?_
  · constructor <;> simp [Service.init, workerRep, RepWorker.leaving]
  · rintro s a s' ⟨hagrees, hleaves⟩ hrun hstep
    refine ⟨?_, hleaves.step hagrees hrun hstep⟩
    by_cases hinside : ClosesInside handshakingRep s a
    · exact hagrees.step hrun hinside hstep
    · simp only [ClosesInside, not_forall, not_not] at hinside
      obtain ⟨rfl, hopen, haway⟩ := hinside
      cases Service.step_cases hstep with
      | closing henter =>
          obtain hclose | ⟨hpc, _⟩ := hleaves.away_closed haway
          · exact absurd (hopen.symm.trans hclose) (by simp)
          · simp [henter.1, ThreadPc.inOpen] at hpc
      | closeAlready => exact hagrees

/-! ### Nobody gets stuck -/

/-- **The handshake.** In every run of the REP service, and in every run of the REQ service in which
`close` never asks a worker that has left after a reply timeout and is not back, whatever the
controller waits for can be brought about by the worker. -/
theorem handshake_never_stuck {req : Service ReqWorker Unit} {rep : Service RepWorker Unit}
    (hreq : Reachable (Service.step workerReq)
      (fun s a => ControllerRun a ∧ ClosesInside handshakingReq s a) (Service.init workerReq) req)
    (hrep : Reachable (Service.step workerRep) (fun _ a => ControllerRun a)
      (Service.init workerRep) rep) :
    NotStuck workerReq req ∧ NotStuck workerRep rep :=
  ⟨(agrees_of_reachable hreq).notStuck, (closesInside_rep hrep).1.notStuck⟩

/-- The REQ worker times out, comes back, and is asked to close; the REP worker is asked to close
while it polls. -/
theorem handshake_never_stuck_timeout :
    ∃ (req : Service ReqWorker Unit) (rep : Service RepWorker Unit),
      (req.threads ()).inClose ∧ req.worker.socket = 2 ∧ (rep.threads ()).inClose ∧
      NotStuck workerReq req ∧ NotStuck workerRep rep := by
  have hreq : ∃ s : Service ReqWorker Unit, Reachable (Service.step workerReq)
      (fun s a => ControllerRun a ∧ ClosesInside handshakingReq s a) (Service.init workerReq) s ∧
      (s.threads ()).inClose ∧ s.worker.socket = 2 :=
    Runs.exists_reachable (List.flatten [[.open ()], Action.working 10,
      [.resume (), .sendMessage () [1]], Action.working 3, [.worker (.polled false)],
      Action.working 15, [.close ()]]) (by decide +kernel)
  have hrep : ∃ s : Service RepWorker Unit, Reachable (Service.step workerRep)
      (fun _ a => ControllerRun a) (Service.init workerRep) s ∧ (s.threads ()).inClose :=
    Runs.exists_reachable (List.flatten [[.open ()], Action.working 8, [.resume (), .close ()]])
      (by decide +kernel)
  obtain ⟨req, hreq, hclose, hsocket⟩ := hreq
  obtain ⟨rep, hrep, hclose'⟩ := hrep
  exact ⟨req, rep, hclose, hsocket, hclose', handshake_never_stuck hreq hrep⟩

/-- A request times out, the worker closes its socket on its own, and the controller calls `close`
before the worker has looked at the flags again. -/
theorem close_after_timeout_gets_stuck :
    ¬ ((∀ s : Service ReqWorker Unit, Reachable (Service.step workerReq)
        (fun _ a => ControllerRun a) (Service.init workerReq) s → NotStuck workerReq s) ∧
      (∀ s : Service RepWorker Unit, Reachable (Service.step workerRep)
        (fun _ a => ControllerRun a) (Service.init workerRep) s → NotStuck workerRep s)) := by
  rintro ⟨hreq, _⟩
  have hstuck : ∃ s : Service ReqWorker Unit, Reachable (Service.step workerReq)
      (fun _ a => ControllerRun a) (Service.init workerReq) s ∧ (s.threads ()).inClose ∧
      s.imp.runThd = true ∧ s.imp.requireSocketState = .close ∧ s.imp.socketOpened = true ∧
      s.worker.phase = .parked :=
    Runs.exists_reachable (List.flatten [[.open ()], Action.working 10,
      [.resume (), .sendMessage () [1]], Action.working 3, [.worker (.polled false)],
      Action.working 5, [.close (), .resume ()], Action.working 4]) (by decide +kernel)
  obtain ⟨s, hs, hclose, hrun, hstate, hopened, hparked⟩ := hstuck
  exact not_leads_closed handshakingReq hrun hstate hopened (.inr hparked)
    ((hreq s hs).in_close hclose)

end Shapeware.ZeroMq
