import Shapeware.ZeroMq.Handshake
import Shapeware.ZeroMq.WorkerRep
import Shapeware.ZeroMq.WorkerReq

/-!
# The two workers in the handshake

Where `workerReq` and `workerRep` are, as the handshake sees it, and the ways by which they come in
and go out.
-/

namespace Shapeware.ZeroMq

open Stepped

/-! ### The kinds of steps -/

section Kinds

variable {W : Type} {phase : W → Phase} {imp imp' : Imp} {w done thrown : W} {r : Stepped W}
  {outcome : Outcome} {n : Nat} {op : SocketOp}

theorem goes_stays (h : goes imp' done outcome = some r) (hrun : imp'.runThd = true)
    (hstate : imp'.requireSocketState = imp.requireSocketState)
    (hopened : imp'.socketOpened = imp.socketOpened) (hphase : phase done = phase w) :
    r.imp.requireSocketState = imp.requireSocketState ∧ r.imp.runThd = true ∧
      Moves imp r.imp (phase w) (phase r.worker) := by
  obtain ⟨-, rfl⟩ := goes_cases h
  refine ⟨hstate, hrun, ?_⟩
  rw [hphase]
  exact .stay _ hopened

theorem operates_stays (h : operates imp n op thrown done outcome = some r)
    (hthrow : outcome ≠ .threw) (hrun : imp.runThd = true) (hphase : phase done = phase w) :
    r.imp.requireSocketState = imp.requireSocketState ∧ r.imp.runThd = true ∧
      Moves imp r.imp (phase w) (phase r.worker) := by
  obtain ⟨-, rfl⟩ | ⟨rfl, -⟩ := operates_cases h
  · refine ⟨rfl, hrun, ?_⟩
    rw [hphase]
    exact .stay _ rfl
  · exact absurd rfl hthrow

theorem polls_stays {done : Bool → W} (h : polls imp n thrown done outcome = some r)
    (hthrow : outcome ≠ .threw) (hrun : imp.runThd = true)
    (hphase : ∀ input, phase (done input) = phase w) :
    r.imp.requireSocketState = imp.requireSocketState ∧ r.imp.runThd = true ∧
      Moves imp r.imp (phase w) (phase r.worker) := by
  obtain ⟨input, -, rfl⟩ | ⟨rfl, -⟩ := polls_cases h
  · refine ⟨rfl, hrun, ?_⟩
    rw [hphase]
    exact .stay _ rfl
  · exact absurd rfl hthrow

theorem receives_stays {done : Option StdString → W}
    (h : receives imp n thrown done outcome = some r) (hthrow : outcome ≠ .threw)
    (hrun : imp.runThd = true) (hphase : ∀ msg, phase (done msg) = phase w) :
    r.imp.requireSocketState = imp.requireSocketState ∧ r.imp.runThd = true ∧
      Moves imp r.imp (phase w) (phase r.worker) := by
  obtain ⟨msg, -, rfl⟩ | ⟨rfl, -⟩ := receives_cases h
  · refine ⟨rfl, hrun, ?_⟩
    rw [hphase]
    exact .stay _ rfl
  · exact absurd rfl hthrow

theorem calls_stays {registered : Bool} {event : Event}
    (h : calls imp registered event done outcome = some r) (hrun : imp.runThd = true)
    (hphase : phase done = phase w) :
    r.imp.requireSocketState = imp.requireSocketState ∧ r.imp.runThd = true ∧
      Moves imp r.imp (phase w) (phase r.worker) := by
  obtain ⟨-, rfl⟩ := calls_cases h
  refine ⟨rfl, hrun, ?_⟩
  rw [hphase]
  exact .stay _ rfl

theorem waitOpen_moves {waiting : Wait → W} {wait : Wait}
    (h : waits imp wait (imp.requireSocketState = .open || !imp.runThd) waiting (goes imp done)
      outcome = some r)
    (hrun : imp.runThd = true) (hdone : phase done = .opening)
    (hwaiting : phase (waiting .test) = .away ∧ phase (waiting .relock) = .away ∧
      phase (waiting .block) = .parked ∧ phase (waiting .blocked) = .parked) :
    r.imp.requireSocketState = imp.requireSocketState ∧ r.imp.runThd = true ∧
      Moves imp r.imp (phase (waiting wait)) (phase r.worker) := by
  obtain ⟨htest, hrelock, hblock, hblocked⟩ := hwaiting
  obtain ⟨wait', hgoes, -, rfl⟩ | ⟨rfl, hopen, hend⟩ := waits_cases h
  · refine ⟨rfl, hrun, ?_⟩
    cases hgoes with
    | block hclosed =>
        rw [htest, hblock]
        exact .park (by simpa [hrun] using hclosed) rfl
    | sleep =>
        rw [hblock, hblocked]
        exact .stay _ rfl
    | retest =>
        rw [hrelock, htest]
        exact .stay _ rfl
  · obtain ⟨-, rfl⟩ := goes_cases hend
    refine ⟨rfl, hrun, ?_⟩
    rw [htest, hdone]
    exact .start (by simpa [hrun] using hopen) rfl

theorem waitInside_moves {waiting : Wait → W} {wait : Wait} {predicate : Bool}
    {done : Outcome → Option (Stepped W)}
    (h : waits imp wait predicate waiting done outcome = some r) (hrun : imp.runThd = true)
    (hpredicate : predicate = false → imp.requireSocketState = .open)
    (hwaiting : phase (waiting .test) = .inside ∧ phase (waiting .relock) = .inside ∧
      phase (waiting .block) = .asleep ∧ phase (waiting .blocked) = .asleep)
    (hdone : done outcome = some r →
      r.imp.requireSocketState = imp.requireSocketState ∧ r.imp.runThd = true ∧
        Moves imp r.imp (phase (waiting .test)) (phase r.worker)) :
    r.imp.requireSocketState = imp.requireSocketState ∧ r.imp.runThd = true ∧
      Moves imp r.imp (phase (waiting wait)) (phase r.worker) := by
  obtain ⟨wait', hgoes, -, rfl⟩ | ⟨rfl, -, hend⟩ := waits_cases h
  · obtain ⟨htest, hrelock, hblock, hblocked⟩ := hwaiting
    refine ⟨rfl, hrun, ?_⟩
    cases hgoes with
    | block hidle =>
        rw [htest, hblock]
        exact .sleep (hpredicate hidle) rfl
    | sleep =>
        rw [hblock, hblocked]
        exact .stay _ rfl
    | retest =>
        rw [hrelock, htest]
        exact .stay _ rfl
  · exact hdone hend

end Kinds

/-! ### The REQ worker -/

def ReqWorker.phase (w : ReqWorker) : Phase :=
  match w.pc with
  | .loop | .lock | .waitOpen .test | .waitOpen .relock => .away
  | .waitOpen .block | .waitOpen .blocked => .parked
  | .checkRun | .create | .setsockopt | .connect | .reportOpened => .opening
  | .waitSend .block | .waitSend .blocked => .asleep
  | .finished => .finished
  | _ => .inside

def ReqWorker.openRank (w : ReqWorker) : Nat :=
  match w.pc with
  | .loop => 9
  | .lock | .waitOpen .relock => 8
  | .waitOpen .test => 7
  | .checkRun => 6
  | .create => 5
  | .setsockopt => 4
  | .connect => 3
  | .reportOpened => 2
  | _ => 0

def ReqWorker.closeRank (w : ReqWorker) : Nat :=
  match w.pc with
  | .waitSend .relock => 12
  | .waitSend .test => 11
  | .send _ => 10
  | .poll => 9
  | .recv | .onReqTimeout => 8
  | .onMessage _ => 7
  | .checkClose => 6
  | .disconnect => 5
  | .close => 4
  | .reportClosed => 3
  | _ => 0

theorem ReqWorker.step_phase {imp : Imp} {w : ReqWorker} {outcome : Outcome} {r : Stepped ReqWorker}
    (h : w.step imp outcome = some r) (hthrow : outcome ≠ .threw) (hrun : imp.runThd = true) :
    r.imp.requireSocketState = imp.requireSocketState ∧ r.imp.runThd = true ∧
      Moves imp r.imp w.phase r.worker.phase := by
  obtain ⟨pc, socket, reset⟩ := w
  cases pc with
  | loop | checkRun =>
      refine goes_stays h hrun rfl rfl ?_
      simp only [ReqWorker.goto, hrun, if_true]
      rfl
  | lock => exact goes_stays h hrun rfl rfl rfl
  | waitOpen wait => exact waitOpen_moves h hrun rfl ⟨rfl, rfl, rfl, rfl⟩
  | waitSend wait =>
      refine waitInside_moves h hrun (fun hidle => ?_) ⟨rfl, rfl, rfl, rfl⟩ fun hdone => ?_
      · simp only [Bool.or_eq_false_iff, decide_eq_false_iff_not, SocketState.ne_close] at hidle
        exact hidle.1.2
      · split_ifs at hdone <;> exact goes_stays hdone hrun rfl rfl rfl
  | create | setsockopt | connect | disconnect | close | send =>
      exact operates_stays h hthrow hrun rfl
  | reportOpened =>
      obtain ⟨rfl, rfl⟩ := reports_cases h
      exact ⟨rfl, hrun, .enter rfl⟩
  | reportClosed =>
      obtain ⟨rfl, rfl⟩ := reports_cases h
      exact ⟨rfl, hrun, .leave rfl⟩
  | poll => exact polls_stays h hthrow hrun fun input => by cases input <;> rfl
  | recv => exact receives_stays h hthrow hrun fun reply => by cases reply <;> rfl
  | onMessage | onReqTimeout => exact calls_stays h hrun rfl
  | checkClose =>
      refine goes_stays h hrun rfl rfl ?_
      simp only [ReqWorker.goto]
      split_ifs <;> rfl
  | finished => cases h

theorem ReqWorker.goes_in {imp : Imp} {w : ReqWorker} (hrun : imp.runThd = true)
    (hstate : imp.requireSocketState = .open) (hphase : w.phase = .away ∨ w.phase = .opening) :
    ∃ outcome r, outcome ≠ .threw ∧ w.step imp outcome = some r ∧
      r.worker.openRank < w.openRank := by
  obtain ⟨pc, socket, reset⟩ := w
  refine ⟨.ok, ?_⟩
  cases pc with
  | loop | lock | checkRun | create | setsockopt | connect | reportOpened =>
      exact ⟨_, by simp, rfl, by simp [ReqWorker.openRank, ReqWorker.goto, hrun]⟩
  | waitOpen wait =>
      cases wait with
      | test =>
          exact ⟨_, by simp, waits_test (by simp [hstate]) _ _ _,
            by simp [ReqWorker.openRank, ReqWorker.goto]⟩
      | relock => exact ⟨_, by simp, rfl, by simp [ReqWorker.openRank, ReqWorker.goto]⟩
      | block | blocked => simp [ReqWorker.phase] at hphase
  | waitSend wait => cases wait <;> simp [ReqWorker.phase] at hphase
  | _ => simp [ReqWorker.phase] at hphase

/-- A worker that is asked to leave sends what it still has to send, and need not wait for a
reply. -/
theorem ReqWorker.goes_out {imp : Imp} {w : ReqWorker}
    (hstate : imp.requireSocketState = .close) (hphase : w.phase = .inside) :
    ∃ outcome r, outcome ≠ .threw ∧ w.step imp outcome = some r ∧
      r.worker.closeRank < w.closeRank := by
  obtain ⟨pc, socket, reset⟩ := w
  cases pc with
  | send | disconnect | close | reportClosed | onMessage | onReqTimeout =>
      exact ⟨.ok, _, by simp, rfl, by simp [ReqWorker.closeRank, ReqWorker.goto]⟩
  | poll =>
      exact ⟨.polled false, _, by simp, rfl, by simp [ReqWorker.closeRank, ReqWorker.goto]⟩
  | recv =>
      exact ⟨.received none, _, by simp, rfl, by simp [ReqWorker.closeRank, ReqWorker.goto]⟩
  | checkClose =>
      exact ⟨.ok, _, by simp, rfl, by simp [ReqWorker.closeRank, ReqWorker.goto, hstate]⟩
  | waitSend wait =>
      cases wait with
      | test =>
          by_cases hsend : imp.sendMessage = true
          · exact ⟨.ok, _, by simp,
              (waits_test (by simp [hstate]) _ _ _).trans (congrFun (if_pos hsend) _),
              by simp [ReqWorker.closeRank, ReqWorker.goto]⟩
          · exact ⟨.ok, _, by simp,
              (waits_test (by simp [hstate]) _ _ _).trans (congrFun (if_neg hsend) _),
              by simp [ReqWorker.closeRank, ReqWorker.goto]⟩
      | relock => exact ⟨.ok, _, by simp, rfl, by simp [ReqWorker.closeRank, ReqWorker.goto]⟩
      | block | blocked => simp [ReqWorker.phase] at hphase
  | waitOpen wait => cases wait <;> simp [ReqWorker.phase] at hphase
  | _ => simp [ReqWorker.phase] at hphase

def handshakingReq : Handshaking workerReq where
  phase := ReqWorker.phase
  openRank := ReqWorker.openRank
  closeRank := ReqWorker.closeRank
  phase_start := rfl
  notified := by
    rintro ⟨pc, socket, reset⟩
    cases pc with
    | waitOpen wait | waitSend wait =>
        cases wait <;> simp [workerReq, ReqWorker.notified, Wait.notified, ReqWorker.phase]
    | _ => exact .inl rfl
  notified_free := by
    rintro ⟨pc, socket, reset⟩ hmux
    cases pc with
    | waitOpen wait | waitSend wait =>
        cases wait <;> simp_all [workerReq, ReqWorker.notified, ReqWorker.holdsMux, Wait.notified,
          Wait.holdsMux, ReqWorker.phase]
    | _ => exact ⟨by simp [workerReq, ReqWorker.notified, ReqWorker.phase],
        by simp [workerReq, ReqWorker.notified, ReqWorker.phase]⟩
  opening_holds := by
    rintro ⟨pc, socket, reset⟩ hphase
    cases pc with
    | waitOpen wait | waitSend wait => cases wait <;> simp [ReqWorker.phase] at hphase
    | loop | lock | finished => simp [ReqWorker.phase] at hphase
    | _ => rfl
  step _ _ _ _ := ReqWorker.step_phase
  goes_in _ _ := ReqWorker.goes_in
  goes_out _ _ _ := ReqWorker.goes_out

/-! ### The REP worker -/

def RepWorker.phase (w : RepWorker) : Phase :=
  match w.pc with
  | .loop | .lock | .waitOpen .test | .waitOpen .relock => .away
  | .waitOpen .block | .waitOpen .blocked => .parked
  | .checkRun | .create | .bind | .reportOpened => .opening
  | .waitReply .block | .waitReply .blocked => .asleep
  | .finished => .finished
  | _ => .inside

def RepWorker.openRank (w : RepWorker) : Nat :=
  match w.pc with
  | .loop => 8
  | .lock | .waitOpen .relock => 7
  | .waitOpen .test => 6
  | .checkRun => 5
  | .create => 4
  | .bind => 3
  | .reportOpened => 2
  | _ => 0

def RepWorker.closeRank (w : RepWorker) : Nat :=
  match w.pc with
  | .unlock => 15
  | .poll => 14
  | .relock _ => 13
  | .recv => 12
  | .onMessage _ => 11
  | .clearSend => 10
  | .waitReply .relock => 9
  | .waitReply .test => 8
  | .send _ => 7
  | .checkClose => 6
  | .unbind => 5
  | .close => 4
  | .reportClosed => 3
  | _ => 0

theorem RepWorker.step_phase {imp : Imp} {w : RepWorker} {outcome : Outcome} {r : Stepped RepWorker}
    (h : w.step imp outcome = some r) (hthrow : outcome ≠ .threw) (hrun : imp.runThd = true) :
    r.imp.requireSocketState = imp.requireSocketState ∧ r.imp.runThd = true ∧
      Moves imp r.imp w.phase r.worker.phase := by
  obtain ⟨pc, socket⟩ := w
  cases pc with
  | loop | checkRun =>
      refine goes_stays h hrun rfl rfl ?_
      simp only [RepWorker.goto, hrun, if_true]
      rfl
  | lock | unlock | clearSend => exact goes_stays h hrun rfl rfl rfl
  | relock input =>
      refine goes_stays h hrun rfl rfl ?_
      cases input <;> rfl
  | waitOpen wait => exact waitOpen_moves h hrun rfl ⟨rfl, rfl, rfl, rfl⟩
  | waitReply wait =>
      refine waitInside_moves h hrun (fun hidle => ?_) ⟨rfl, rfl, rfl, rfl⟩ fun hdone => ?_
      · simp only [Bool.or_eq_false_iff, decide_eq_false_iff_not, SocketState.ne_close] at hidle
        exact hidle.1.2
      · split_ifs at hdone <;> exact goes_stays hdone hrun rfl rfl rfl
  | create | bind | unbind | close | send => exact operates_stays h hthrow hrun rfl
  | reportOpened =>
      obtain ⟨rfl, rfl⟩ := reports_cases h
      exact ⟨rfl, hrun, .enter rfl⟩
  | reportClosed =>
      obtain ⟨rfl, rfl⟩ := reports_cases h
      exact ⟨rfl, hrun, .leave rfl⟩
  | poll => exact polls_stays h hthrow hrun fun _ => rfl
  | recv => exact receives_stays h hthrow hrun fun request => by cases request <;> rfl
  | onMessage => exact calls_stays h hrun rfl
  | checkClose =>
      refine goes_stays h hrun rfl rfl ?_
      simp only [RepWorker.goto]
      split_ifs <;> rfl
  | finished => cases h

theorem RepWorker.goes_in {imp : Imp} {w : RepWorker} (hrun : imp.runThd = true)
    (hstate : imp.requireSocketState = .open) (hphase : w.phase = .away ∨ w.phase = .opening) :
    ∃ outcome r, outcome ≠ .threw ∧ w.step imp outcome = some r ∧
      r.worker.openRank < w.openRank := by
  obtain ⟨pc, socket⟩ := w
  refine ⟨.ok, ?_⟩
  cases pc with
  | loop | lock | checkRun | create | bind | reportOpened =>
      exact ⟨_, by simp, rfl, by simp [RepWorker.openRank, RepWorker.goto, hrun]⟩
  | waitOpen wait =>
      cases wait with
      | test =>
          exact ⟨_, by simp, waits_test (by simp [hstate]) _ _ _,
            by simp [RepWorker.openRank, RepWorker.goto]⟩
      | relock => exact ⟨_, by simp, rfl, by simp [RepWorker.openRank, RepWorker.goto]⟩
      | block | blocked => simp [RepWorker.phase] at hphase
  | waitReply wait => cases wait <;> simp [RepWorker.phase] at hphase
  | _ => simp [RepWorker.phase] at hphase

/-- A worker that is asked to leave looks once more for a request, but need not find one. -/
theorem RepWorker.goes_out {imp : Imp} {w : RepWorker}
    (hstate : imp.requireSocketState = .close) (hphase : w.phase = .inside) :
    ∃ outcome r, outcome ≠ .threw ∧ w.step imp outcome = some r ∧
      r.worker.closeRank < w.closeRank := by
  obtain ⟨pc, socket⟩ := w
  cases pc with
  | unlock | clearSend | send | unbind | close | reportClosed | onMessage =>
      exact ⟨.ok, _, by simp, rfl, by simp [RepWorker.closeRank, RepWorker.goto]⟩
  | relock input =>
      refine ⟨.ok, _, by simp, rfl, ?_⟩
      cases input <;> simp [RepWorker.closeRank, RepWorker.goto]
  | poll =>
      exact ⟨.polled false, _, by simp, rfl, by simp [RepWorker.closeRank, RepWorker.goto]⟩
  | recv =>
      exact ⟨.received none, _, by simp, rfl, by simp [RepWorker.closeRank, RepWorker.goto]⟩
  | checkClose =>
      exact ⟨.ok, _, by simp, rfl, by simp [RepWorker.closeRank, RepWorker.goto, hstate]⟩
  | waitReply wait =>
      cases wait with
      | test =>
          by_cases hsend : imp.sendMessage = true
          · exact ⟨.ok, _, by simp,
              (waits_test (by simp [hstate]) _ _ _).trans (congrFun (if_pos hsend) _),
              by simp [RepWorker.closeRank, RepWorker.goto]⟩
          · exact ⟨.ok, _, by simp,
              (waits_test (by simp [hstate]) _ _ _).trans (congrFun (if_neg hsend) _),
              by simp [RepWorker.closeRank, RepWorker.goto]⟩
      | relock => exact ⟨.ok, _, by simp, rfl, by simp [RepWorker.closeRank, RepWorker.goto]⟩
      | block | blocked => simp [RepWorker.phase] at hphase
  | waitOpen wait => cases wait <;> simp [RepWorker.phase] at hphase
  | _ => simp [RepWorker.phase] at hphase

def handshakingRep : Handshaking workerRep where
  phase := RepWorker.phase
  openRank := RepWorker.openRank
  closeRank := RepWorker.closeRank
  phase_start := rfl
  notified := by
    rintro ⟨pc, socket⟩
    cases pc with
    | waitOpen wait | waitReply wait =>
        cases wait <;> simp [workerRep, RepWorker.notified, Wait.notified, RepWorker.phase]
    | _ => exact .inl rfl
  notified_free := by
    rintro ⟨pc, socket⟩ hmux
    cases pc with
    | waitOpen wait | waitReply wait =>
        cases wait <;> simp_all [workerRep, RepWorker.notified, RepWorker.holdsMux, Wait.notified,
          Wait.holdsMux, RepWorker.phase]
    | _ => exact ⟨by simp [workerRep, RepWorker.notified, RepWorker.phase],
        by simp [workerRep, RepWorker.notified, RepWorker.phase]⟩
  opening_holds := by
    rintro ⟨pc, socket⟩ hphase
    cases pc with
    | waitOpen wait | waitReply wait => cases wait <;> simp [RepWorker.phase] at hphase
    | loop | lock | poll | relock | finished => simp [RepWorker.phase] at hphase
    | _ => rfl
  step _ _ _ _ := RepWorker.step_phase
  goes_in _ _ := RepWorker.goes_in
  goes_out _ _ _ := RepWorker.goes_out

end Shapeware.ZeroMq
