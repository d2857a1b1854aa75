import Shapeware.ZeroMq.Handshake
import Shapeware.ZeroMq.WorkerRep
import Shapeware.ZeroMq.WorkerReq

/-!
# `open` and `close` are barriers

`m_socketOpened` is written by the callers, under `m_mux`, and by the worker, under `m_muxReady`.
What a caller finally sees there was nevertheless written by the worker because of this very call: a
worker that is to keep the socket closed is calm, and cannot report that it has opened one before
it has done so.
-/

namespace Shapeware.ZeroMq

open Runs Stepped

/-- A socket was created, and later connected or bound. -/
def Established (trace : List Event) : Prop :=
  ∃ n op, (op = .connect ∨ op = .bind) ∧
    [Event.socketOp n .create false, .socketOp n op false].Sublist trace

theorem Established.append {trace : List Event} (h : Established trace) (events : List Event) :
    Established (trace ++ events) := by
  obtain ⟨n, op, hop, hsub⟩ := h
  exact ⟨n, op, hop, hsub.trans (List.sublist_append_left ..)⟩

/-- What a worker has done for the socket that it is opening. -/
inductive Progress
  | nothing
  | created
  | established
deriving DecidableEq

/-- The ways in which a step of the worker can leave it with some progress. -/
inductive Advances {W : Type} (progress : W → Progress) (socket : W → Nat) (w : W)
    (r : Stepped W) : Prop
  | rests (hprogress : progress r.worker = .nothing)
  | keeps (hprogress : progress r.worker = progress w) (hsocket : socket r.worker = socket w)
  | creates (hprogress : progress r.worker = .created)
      (hevents : r.events = [.socketOp (socket r.worker) .create false])
  | establishes {op : SocketOp} (hop : op = .connect ∨ op = .bind)
      (hcreated : progress w = .created) (hprogress : progress r.worker = .established)
      (hevents : r.events = [.socketOp (socket w) op false])

/-- What the callers can rely on in a step of the worker. -/
structure Reports {W : Type} (calm : Imp → W → Prop) (progress : W → Progress) (imp : Imp) (w : W)
    (r : Stepped W) : Prop where
  state : r.imp.requireSocketState = imp.requireSocketState
  events : ∀ e ∈ r.events, e.isWorkers = true
  quiet : imp.requireSocketState = .close → calm imp w → r.events = [] ∧ calm r.imp r.worker
  opened : r.imp.socketOpened = true → imp.socketOpened = true ∨ progress w = .established
  closed : r.imp.socketOpened = false → imp.socketOpened = true → calm r.imp r.worker

theorem Reports.silent {W : Type} {calm : Imp → W → Prop} {progress : W → Progress} {imp : Imp}
    {w : W} {r : Stepped W} (hstate : r.imp.requireSocketState = imp.requireSocketState)
    (hopened : r.imp.socketOpened = imp.socketOpened) (hevents : ∀ e ∈ r.events, e.isWorkers = true)
    (hcalm : imp.requireSocketState = .close → calm imp w → r.events = [] ∧ calm r.imp r.worker) :
    Reports calm progress imp w r where
  state := hstate
  events := hevents
  quiet := hcalm
  opened htrue := .inl (hopened ▸ htrue)
  closed hfalse htrue := by
    rw [hopened, htrue] at hfalse
    cases hfalse

section Kinds

variable {W : Type} {calm : Imp → W → Prop} {progress : W → Progress} {socket : W → Nat}
  {imp imp' : Imp} {w done thrown : W} {r : Stepped W} {outcome : Outcome} {n : Nat} {op : SocketOp}

theorem passes (hprogress : progress r.worker = .nothing)
    (hstate : r.imp.requireSocketState = imp.requireSocketState)
    (hopened : r.imp.socketOpened = imp.socketOpened) (hevents : ∀ e ∈ r.events, e.isWorkers = true)
    (hbusy : ¬ calm imp w) : Advances progress socket w r ∧ Reports calm progress imp w r :=
  ⟨.rests hprogress, .silent hstate hopened hevents fun _ hcalm => absurd hcalm hbusy⟩

theorem goes_calm (h : goes imp done outcome = some r) (hprogress : progress done = .nothing)
    (hcalm : imp.requireSocketState = .close → calm imp w → calm imp done) :
    Advances progress socket w r ∧ Reports calm progress imp w r := by
  obtain ⟨-, rfl⟩ := goes_cases h
  exact ⟨.rests hprogress, .silent rfl rfl (by simp) fun hstate hw => ⟨rfl, hcalm hstate hw⟩⟩

theorem goes_busy (h : goes imp' done outcome = some r) (hbusy : ¬ calm imp w)
    (hprogress : progress done = .nothing)
    (hstate : imp'.requireSocketState = imp.requireSocketState)
    (hopened : imp'.socketOpened = imp.socketOpened) :
    Advances progress socket w r ∧ Reports calm progress imp w r := by
  obtain ⟨-, rfl⟩ := goes_cases h
  exact passes hprogress hstate hopened (by simp) hbusy

theorem operates_advances (h : operates imp n op thrown done outcome = some r)
    (hbusy : ¬ calm imp w) (hthrown : progress thrown = .nothing)
    (hdone : Advances progress socket w
      { imp, worker := done, events := [.socketOp n op false] }) :
    Advances progress socket w r ∧ Reports calm progress imp w r := by
  obtain ⟨-, rfl⟩ | ⟨-, rfl⟩ := operates_cases h
  · exact ⟨hdone, .silent rfl rfl (by simp [Event.isWorkers]) fun _ hcalm => absurd hcalm hbusy⟩
  · exact passes hthrown rfl rfl (by simp [Event.isWorkers]) hbusy

theorem operates_busy (h : operates imp n op thrown done outcome = some r)
    (hbusy : ¬ calm imp w) (hthrown : progress thrown = .nothing)
    (hdone : progress done = .nothing) :
    Advances progress socket w r ∧ Reports calm progress imp w r :=
  operates_advances h hbusy hthrown (.rests hdone)

theorem polls_busy {done : Bool → W} (h : polls imp n thrown done outcome = some r)
    (hbusy : ¬ calm imp w) (hthrown : progress thrown = .nothing)
    (hdone : ∀ input, progress (done input) = .nothing) :
    Advances progress socket w r ∧ Reports calm progress imp w r := by
  obtain ⟨input, -, rfl⟩ | ⟨-, rfl⟩ := polls_cases h
  · exact passes (hdone input) rfl rfl (by simp [Event.isWorkers]) hbusy
  · exact passes hthrown rfl rfl (by simp [Event.isWorkers]) hbusy

theorem receives_busy {done : Option StdString → W}
    (h : receives imp n thrown done outcome = some r) (hbusy : ¬ calm imp w)
    (hthrown : progress thrown = .nothing) (hdone : ∀ msg, progress (done msg) = .nothing) :
    Advances progress socket w r ∧ Reports calm progress imp w r := by
  obtain ⟨msg, -, rfl⟩ | ⟨-, rfl⟩ := receives_cases h
  · exact passes (hdone msg) rfl rfl (by simp [Event.isWorkers]) hbusy
  · exact passes hthrown rfl rfl (by simp [Event.isWorkers]) hbusy

theorem calls_busy {registered : Bool} {event : Event}
    (h : calls imp registered event done outcome = some r) (hbusy : ¬ calm imp w)
    (hprogress : progress done = .nothing) (hevent : event.isWorkers = true) :
    Advances progress socket w r ∧ Reports calm progress imp w r := by
  obtain ⟨-, rfl⟩ := calls_cases h
  refine passes hprogress rfl rfl ?_ hbusy
  dsimp only
  split_ifs <;> simp [hevent]

theorem reports_opened (h : reports imp true done outcome = some r) (hbusy : ¬ calm imp w)
    (hprogress : progress done = .nothing) (hestablished : progress w = .established) :
    Advances progress socket w r ∧ Reports calm progress imp w r := by
  obtain ⟨-, rfl⟩ := reports_cases h
  exact ⟨.rests hprogress, rfl, by simp, fun _ hcalm => absurd hcalm hbusy,
    fun _ => .inr hestablished, by simp⟩

theorem reports_closed (h : reports imp false done outcome = some r) (hbusy : ¬ calm imp w)
    (hprogress : progress done = .nothing) (hcalm : ∀ imp, calm imp done) :
    Advances progress socket w r ∧ Reports calm progress imp w r := by
  obtain ⟨-, rfl⟩ := reports_cases h
  exact ⟨.rests hprogress, rfl, by simp, fun _ hcalm => absurd hcalm hbusy, by simp,
    fun _ _ => hcalm _⟩

/-- The wait for the socket to be required: only the request to stop ends it while the socket is to
be closed. -/
theorem waits_calm {wait : Wait} {waiting : Wait → W}
    (h : waits imp wait (imp.requireSocketState = .open || !imp.runThd) waiting (goes imp done)
      outcome = some r)
    (hwaiting : ∀ wait, progress (waiting wait) = .nothing ∧ calm imp (waiting wait))
    (hprogress : progress done = .nothing) (hcalm : imp.runThd = false → calm imp done) :
    Advances progress socket w r ∧ Reports calm progress imp w r := by
  obtain ⟨wait', -, -, rfl⟩ | ⟨rfl, hpredicate, hdone⟩ := waits_cases h
  · exact ⟨.rests (hwaiting wait').1,
      .silent rfl rfl (by simp) fun _ _ => ⟨rfl, (hwaiting wait').2⟩⟩
  · refine goes_calm hdone hprogress fun hstate _ => hcalm ?_
    simpa [hstate] using hpredicate

end Kinds

/-- A worker that `open` and `close` can wait for. It is calm where it does nothing unless the
socket is required to be open. -/
structure Barrier {W : Type} (P : Program W) where
  calm : Imp → W → Prop
  progress : W → Progress
  socket : W → Nat
  calm_start : ∀ imp, calm imp P.start
  calm_notified : ∀ imp w, calm imp w → calm imp (P.notified w)
  calm_frame : ∀ imp imp' w, (imp'.runThd = true → imp.runThd = true) → calm imp w → calm imp' w
  progress_of_calm : ∀ imp w, calm imp w → progress w = .nothing
  progress_notified : ∀ w, progress (P.notified w) = progress w
  socket_notified : ∀ w, socket (P.notified w) = socket w
  step : ∀ imp w outcome r, P.step imp w outcome = some r →
    Advances progress socket w r ∧ Reports calm progress imp w r

/-! ### The two workers -/

def ReqWorker.calm (imp : Imp) (w : ReqWorker) : Prop :=
  match w.pc with
  | .loop | .lock | .waitOpen _ | .finished => True
  | .checkRun => imp.runThd = false
  | _ => False

def ReqWorker.progress (w : ReqWorker) : Progress :=
  match w.pc with
  | .setsockopt | .connect => .created
  | .reportOpened => .established
  | _ => .nothing

theorem ReqWorker.barrier_step {imp : Imp} {w : ReqWorker} {outcome : Outcome}
    {r : Stepped ReqWorker} (h : w.step imp outcome = some r) :
    Advances progress ReqWorker.socket w r ∧ Reports calm progress imp w r := by
  obtain ⟨pc, socket, reset⟩ := w
  cases pc with
  | loop =>
      refine goes_calm h ?_ fun _ _ => ?_ <;> cases imp.runThd <;> trivial
  | lock => exact goes_calm h rfl fun _ _ => trivial
  | waitOpen wait => exact waits_calm h (fun _ => ⟨rfl, trivial⟩) rfl id
  | checkRun =>
      refine goes_calm h ?_ fun _ hstopped => ?_
      · cases imp.runThd <;> rfl
      · change imp.runThd = false at hstopped
        simp [hstopped, goto, calm]
  | create => exact operates_advances h id rfl (.creates rfl rfl)
  | setsockopt => exact operates_advances h id rfl (.keeps rfl rfl)
  | connect => exact operates_advances h id rfl (.establishes (.inl rfl) rfl rfl rfl)
  | send | disconnect | close => exact operates_busy h id rfl rfl
  | reportOpened => exact reports_opened h id rfl rfl
  | reportClosed => exact reports_closed h id rfl fun _ => trivial
  | waitSend wait =>
      obtain ⟨wait', -, -, rfl⟩ | ⟨-, -, hdone⟩ := waits_cases h
      · exact passes rfl rfl rfl (by simp) id
      · split_ifs at hdone <;> exact goes_busy hdone id rfl rfl rfl
  | poll => exact polls_busy h id rfl fun input => by cases input <;> rfl
  | recv => exact receives_busy h id rfl fun reply => by cases reply <;> rfl
  | onMessage | onReqTimeout => exact calls_busy h id rfl rfl
  | checkClose =>
      refine goes_busy h id ?_ rfl rfl
      simp only [ReqWorker.goto]
      split_ifs <;> rfl
  | finished => cases h

def barrierReq : Barrier workerReq where
  calm := ReqWorker.calm
  progress := ReqWorker.progress
  socket := ReqWorker.socket
  calm_start _ := trivial
  calm_notified := by
    rintro imp ⟨pc, socket, reset⟩ hcalm
    cases pc <;> exact hcalm
  calm_frame := by
    rintro imp imp' ⟨pc, socket, reset⟩ hrun hcalm
    cases pc with
    | checkRun =>
        change imp.runThd = false at hcalm
        change imp'.runThd = false
        simpa [hcalm] using hrun
    | _ => exact hcalm
  progress_of_calm := by
    rintro imp ⟨pc, socket, reset⟩ hcalm
    cases pc with
    | setsockopt | connect | reportOpened => cases hcalm
    | _ => rfl
  progress_notified := by
    rintro ⟨pc, socket, reset⟩
    cases pc <;> rfl
  socket_notified := ReqWorker.socket_notified
  step _ _ _ _ := ReqWorker.barrier_step

def RepWorker.calm (imp : Imp) (w : RepWorker) : Prop :=
  match w.pc with
  | .loop | .lock | .waitOpen _ | .finished => True
  | .checkRun => imp.runThd = false
  | _ => False

def RepWorker.progress (w : RepWorker) : Progress :=
  match w.pc with
  | .bind => .created
  | .reportOpened => .established
  | _ => .nothing

theorem RepWorker.barrier_step {imp : Imp} {w : RepWorker} {outcome : Outcome}
    {r : Stepped RepWorker} (h : w.step imp outcome = some r) :
    Advances progress RepWorker.socket w r ∧ Reports calm progress imp w r := by
  obtain ⟨pc, socket⟩ := w
  cases pc with
  | loop =>
      refine goes_calm h ?_ fun _ _ => ?_ <;> cases imp.runThd <;> trivial
  | lock => exact goes_calm h rfl fun _ _ => trivial
  | waitOpen wait => exact waits_calm h (fun _ => ⟨rfl, trivial⟩) rfl id
  | checkRun =>
      refine goes_calm h ?_ fun _ hstopped => ?_
      · cases imp.runThd <;> rfl
      · change imp.runThd = false at hstopped
        simp [hstopped, goto, calm]
  | create => exact operates_advances h id rfl (.creates rfl rfl)
  | bind => exact operates_advances h id rfl (.establishes (.inr rfl) rfl rfl rfl)
  | send | unbind | close => exact operates_busy h id rfl rfl
  | reportOpened => exact reports_opened h id rfl rfl
  | reportClosed => exact reports_closed h id rfl fun _ => trivial
  | unlock | clearSend => exact goes_busy h id rfl rfl rfl
  | relock input =>
      refine goes_busy h id ?_ rfl rfl
      cases input <;> rfl
  | waitReply wait =>
      obtain ⟨wait', -, -, rfl⟩ | ⟨-, -, hdone⟩ := waits_cases h
      · exact passes rfl rfl rfl (by simp) id
      · split_ifs at hdone <;> exact goes_busy hdone id rfl rfl rfl
  | poll => exact polls_busy h id rfl fun _ => rfl
  | recv => exact receives_busy h id rfl fun request => by cases request <;> rfl
  | onMessage => exact calls_busy h id rfl rfl
  | checkClose =>
      refine goes_busy h id ?_ rfl rfl
      simp only [RepWorker.goto]
      split_ifs <;> rfl
  | finished => cases h

def barrierRep : Barrier workerRep where
  calm := RepWorker.calm
  progress := RepWorker.progress
  socket := RepWorker.socket
  calm_start _ := trivial
  calm_notified := by
    rintro imp ⟨pc, socket⟩ hcalm
    cases pc <;> exact hcalm
  calm_frame := by
    rintro imp imp' ⟨pc, socket⟩ hrun hcalm
    cases pc with
    | checkRun =>
        change imp.runThd = false at hcalm
        change imp'.runThd = false
        simpa [hcalm] using hrun
    | _ => exact hcalm
  progress_of_calm := by
    rintro imp ⟨pc, socket⟩ hcalm
    cases pc with
    | bind | reportOpened => cases hcalm
    | _ => rfl
  progress_notified := by
    rintro ⟨pc, socket⟩
    cases pc <;> rfl
  socket_notified := RepWorker.socket_notified
  step _ _ _ _ := RepWorker.barrier_step

/-! ### Any such worker with its callers -/

section Barriers

variable {W T : Type} {P : Program W} {B : Barrier P} {c : T} {s s' : Service W T} {a : Action T}

/-- `open` and `close` are only called by thread `c`. -/
def ControlledBy (c : T) (a : Action T) : Prop := ∀ t, a = .open t ∨ a = .close t → t = c

instance [DecidableEq T] (c : T) (a : Action T) : Decidable (ControlledBy c a) :=
  match a with
  | .open t | .close t => decidable_of_iff (t = c) (by simp [ControlledBy])
  | .sendMessage .. | .deactivate _ | .resume _ | .wake _ | .registerOnMessage _
  | .registerOnReqTimeout _ | .worker _ | .wakeWorker => isTrue (by simp [ControlledBy])

/-- What the trace since the call of `open` shows. -/
structure Since (B : Barrier P) (s : Service W T) (mid : List Event) : Prop where
  created : B.progress s.worker = .created →
    .socketOp (B.socket s.worker) .create false ∈ mid
  established : B.progress s.worker = .established → Established mid
  opened : s.imp.socketOpened = true → Established mid

structure InBarrier (B : Barrier P) (c : T) (s : Service W T) : Prop where
  only : ∀ t, (s.threads t).inOpen ∨ (s.threads t).inClose → t = c
  closed : s.imp.requireSocketState = .close →
    B.calm s.imp s.worker ∨ (s.threads c).inClose ∧ s.imp.socketOpened = true
  closing : (s.threads c).inClose → s.imp.requireSocketState = .close
  opening : (s.threads c).inOpen →
    ∃ before mid, s.trace = before ++ .opening :: mid ∧ .opening ∉ mid ∧ Since B s mid

namespace InBarrier

theorem init : InBarrier B c (Service.init P) where
  only := by simp [Service.init, ThreadPc.inOpen, ThreadPc.inClose]
  closed _ := .inl (B.calm_start _)
  closing := by simp [Service.init, ThreadPc.inClose]
  opening := by simp [Service.init, ThreadPc.inOpen]

theorem quiet (h : InBarrier B c s)
    (hstate : s'.imp.requireSocketState = s.imp.requireSocketState)
    (hopened : s'.imp.socketOpened = s.imp.socketOpened)
    (hrun : s'.imp.runThd = true → s.imp.runThd = true)
    (hworker : s'.worker = s.worker ∨ s'.worker = P.notified s.worker)
    (htrace : ∃ events, s'.trace = s.trace ++ events ∧ .opening ∉ events)
    (hopen : ∀ t, (s'.threads t).inOpen → (s.threads t).inOpen)
    (hclose : ∀ t, (s'.threads t).inClose → (s.threads t).inClose)
    (hstays : (s.threads c).inClose → (s'.threads c).inClose ∨ s.imp.socketOpened = false) :
    InBarrier B c s' := by
  have hprogress : B.progress s'.worker = B.progress s.worker := by
    obtain heq | heq := hworker <;> simp [heq, B.progress_notified]
  have hsocket : B.socket s'.worker = B.socket s.worker := by
    obtain heq | heq := hworker <;> simp [heq, B.socket_notified]
  have hcalm (hold : B.calm s.imp s.worker) : B.calm s'.imp s'.worker := by
    apply B.calm_frame s.imp s'.imp s'.worker hrun
    obtain heq | heq := hworker
    · rwa [heq]
    · rw [heq]
      exact B.calm_notified _ _ hold
  refine ⟨fun t ht => h.only t (ht.imp (hopen t) (hclose t)), fun hclosed => ?_,
    fun hin => hstate.trans (h.closing (hclose c hin)), fun hin => ?_⟩
  · obtain hold | ⟨hin, htrue⟩ := h.closed (hstate.symm.trans hclosed)
    · exact .inl (hcalm hold)
    · have hin' := (hstays hin).resolve_right (by simp [htrue])
      exact .inr ⟨hin', hopened.trans htrue⟩
  · obtain ⟨before, mid, heq, hnot, hsince⟩ := h.opening (hopen c hin)
    obtain ⟨events, hevents, hnone⟩ := htrace
    refine ⟨before, mid ++ events, by simp [hevents, heq], by simp [hnot, hnone], ?_, ?_, ?_⟩
    · rw [hprogress, hsocket]
      exact fun hcreated => List.mem_append_left _ (hsince.created hcreated)
    · rw [hprogress]
      exact fun hestablished => (hsince.established hestablished).append _
    · rw [hopened]
      exact fun htrue => (hsince.opened htrue).append _

theorem works (h : InBarrier B c s) {outcome : Outcome} {r : Stepped W}
    (hwork : P.step s.imp s.worker outcome = some r) : InBarrier B c (s.works r) := by
  obtain ⟨hadvances, hreports⟩ := B.step _ _ _ _ hwork
  have hthreads (t : T) :
      ((s.works r).threads t).inOpen = (s.threads t).inOpen ∧
        ((s.works r).threads t).inClose = (s.threads t).inClose := by
    rw [Service.works]
    cases r.notifyReady with
    | false => exact ⟨rfl, rfl⟩
    | true =>
        cases hpc : s.threads t <;>
          simp [hpc, ThreadPc.notified, ThreadPc.inOpen, ThreadPc.inClose]
  refine ⟨fun t ht => h.only t ?_, fun hclosed => ?_, fun hin => ?_, fun hin => ?_⟩
  · rwa [(hthreads t).1, (hthreads t).2] at ht
  · rw [(hthreads c).2]
    have hclosed' := hreports.state.symm.trans hclosed
    obtain hold | ⟨hin, htrue⟩ := h.closed hclosed'
    · exact .inl (hreports.quiet hclosed' hold).2
    · cases hnow : r.imp.socketOpened with
      | false => exact .inl (hreports.closed hnow htrue)
      | true => exact .inr ⟨hin, hnow⟩
  · rw [(hthreads c).2] at hin
    exact hreports.state.trans (h.closing hin)
  · rw [(hthreads c).1] at hin
    obtain ⟨before, mid, heq, hnot, hsince⟩ := h.opening hin
    have hnone : .opening ∉ r.events := fun hmem => by
      simpa [Event.isWorkers] using hreports.events _ hmem
    refine ⟨before, mid ++ r.events, by simp [Service.works, heq], by simp [hnot, hnone], ?_, ?_,
      fun htrue => ?_⟩
    · intro hcreated
      change B.progress r.worker = _ at hcreated
      change Event.socketOp (B.socket r.worker) _ _ ∈ mid ++ r.events
      cases hadvances with
      | rests hprogress => simp [hprogress] at hcreated
      | keeps hprogress hsocket =>
          rw [hsocket]
          exact List.mem_append_left _ (hsince.created (hprogress.symm.trans hcreated))
      | creates _ hevents => simp [hevents]
      | establishes _ _ hprogress => simp [hprogress] at hcreated
    · intro hestablished
      change B.progress r.worker = _ at hestablished
      cases hadvances with
      | rests hprogress => simp [hprogress] at hestablished
      | keeps hprogress hsocket =>
          exact (hsince.established (hprogress.symm.trans hestablished)).append _
      | creates hprogress => simp [hprogress] at hestablished
      | @establishes op hop hcreated _ hevents =>
          refine ⟨B.socket s.worker, op, hop, ?_⟩
          rw [hevents]
          exact (List.singleton_sublist.mpr (hsince.created hcreated)).append (.refl _)
    · obtain hold | hestablished := hreports.opened htrue
      · exact (hsince.opened hold).append _
      · exact (hsince.established hestablished).append _

omit B c s s' a P W in
theorem of_update [DecidableEq T] {threads : T → ThreadPc} {t : T} {pc : ThreadPc}
    (Q : ThreadPc → Prop) (h : Q pc → Q (threads t)) (u : T)
    (hu : Q (Function.update threads t pc u)) : Q (threads u) := by
  by_cases hut : u = t
  · subst hut
    exact h (by simpa using hu)
  · simpa [hut] using hu

theorem moves [DecidableEq T] (h : InBarrier B c s) {t : T} {pc : ThreadPc} (e : List Event)
    (hnone : .opening ∉ e) (hrun : s'.imp.runThd = true → s.imp.runThd = true)
    (hstate : s'.imp.requireSocketState = s.imp.requireSocketState)
    (hopened : s'.imp.socketOpened = s.imp.socketOpened)
    (hworker : s'.worker = s.worker ∨ s'.worker = P.notified s.worker)
    (htrace : s'.trace = s.trace ++ e) (hthreads : s'.threads = Function.update s.threads t pc)
    (hopen : pc.inOpen → (s.threads t).inOpen) (hclose : pc.inClose → (s.threads t).inClose)
    (hstays : (s.threads t).inClose → pc.inClose ∨ s.imp.socketOpened = false) :
    InBarrier B c s' := by
  refine h.quiet hstate hopened hrun hworker ⟨e, htrace, hnone⟩ ?_ ?_ fun hin => ?_
  · rw [hthreads]
    exact of_update ThreadPc.inOpen hopen
  · rw [hthreads]
    exact of_update ThreadPc.inClose hclose
  · rw [hthreads]
    by_cases hct : c = t
    · subst hct
      simpa using hstays hin
    · simpa [hct] using Or.inl hin

theorem step [DecidableEq T] (h : InBarrier B c s) (hcontrolled : ControlledBy c a)
    (hstep : Service.step P s a = some s') : InBarrier B c s' := by
  cases Service.step_cases hstep with
  | @opening t henter hstate =>
      obtain rfl := hcontrolled t (.inl rfl)
      have hcalm : B.calm s.imp s.worker :=
        (h.closed hstate).resolve_right fun hin => by simp [henter.1, ThreadPc.inClose] at hin
      have hnothing := B.progress_of_calm _ _ (B.calm_notified _ _ hcalm)
      refine ⟨fun u hu => ?_, by simp, by simp [ThreadPc.inClose], fun _ => ?_⟩
      · by_contra hut
        exact hut (h.only u (by simpa [hut] using hu))
      · exact ⟨s.trace, [], rfl, by simp, by simp [hnothing], by simp [hnothing], by simp⟩
  | @closing t henter hstate =>
      obtain rfl := hcontrolled t (.inr rfl)
      refine ⟨fun u hu => ?_, fun _ => .inr ⟨by simp [ThreadPc.inClose], rfl⟩, by simp,
        by simp [ThreadPc.inOpen]⟩
      by_contra hut
      exact hut (h.only u (by simpa [hut] using hu))
  | openAlready | closeAlready => exact h
  | accepts =>
      exact h.quiet rfl rfl id (.inr rfl) ⟨_, rfl, by simp⟩ (fun _ => id) (fun _ => id) .inl
  | refuses =>
      exact h.quiet rfl rfl id (.inl rfl) ⟨_, rfl, by simp⟩ (fun _ => id) (fun _ => id) .inl
  | registersOnMessage | registersOnReqTimeout =>
      exact h.quiet rfl rfl id (.inl rfl) ⟨[], by simp, by simp⟩ (fun _ => id) (fun _ => id) .inl
  | wakesWorker =>
      exact h.quiet rfl rfl id (.inr rfl) ⟨[], by simp, by simp⟩ (fun _ => id) (fun _ => id) .inl
  | stops hidle =>
      exact h.moves [] (by simp) (by simp) rfl rfl (.inl rfl) (by simp) rfl
        (by simp [ThreadPc.inOpen]) (by simp [ThreadPc.inClose])
        (by simp [hidle, ThreadPc.inClose])
  | opened hpc hopened =>
      exact h.moves [.opened] (by simp) id rfl rfl (.inl rfl) rfl rfl
        (by simp [ThreadPc.inOpen]) (by simp [ThreadPc.inClose]) (by simp [hpc, ThreadPc.inClose])
  | openWaits hpc hopened =>
      exact h.moves [] (by simp) id rfl rfl (.inl rfl) (by simp) rfl
        (by simp [hpc, ThreadPc.inOpen]) (by simp [ThreadPc.inClose])
        (by simp [hpc, ThreadPc.inClose])
  | closed hpc hopened =>
      exact h.moves [.closed] (by simp) id rfl rfl (.inl rfl) rfl rfl
        (by simp [ThreadPc.inOpen]) (by simp [ThreadPc.inClose]) fun _ => .inr hopened
  | closeWaits hpc hopened =>
      exact h.moves [] (by simp) id rfl rfl (.inl rfl) (by simp) rfl
        (by simp [ThreadPc.inOpen]) (by simp [hpc, ThreadPc.inClose])
        (by simp [ThreadPc.inClose])
  | notifies hpc =>
      exact h.moves [] (by simp) id rfl rfl (.inr rfl) (by simp) rfl
        (by simp [ThreadPc.inOpen]) (by simp [ThreadPc.inClose]) (by simp [hpc, ThreadPc.inClose])
  | joins hpc hfinished =>
      exact h.moves [] (by simp) id rfl rfl (.inl rfl) (by simp) rfl
        (by simp [ThreadPc.inOpen]) (by simp [ThreadPc.inClose]) (by simp [hpc, ThreadPc.inClose])
  | @wakes t =>
      refine h.moves [] (by simp) id rfl rfl (.inl rfl) (by simp) rfl ?_ ?_ ?_ <;>
        cases s.threads t <;> simp [ThreadPc.notified, ThreadPc.inOpen, ThreadPc.inClose]
  | works hwork => exact h.works hwork

end InBarrier

variable [DecidableEq T]

theorem inBarrier_of_reachable (B : Barrier P)
    (h : Reachable (Service.step P) (fun _ a => ControlledBy c a) (Service.init P) s) :
    InBarrier B c s :=
  h.invariant (InBarrier B c) .init fun _ _ _ hinv hcontrolled hstep => hinv.step hcontrolled hstep

/-- The step by which a call of `close` returns: at once, or out of its wait. -/
def ReturnsFromClose (c : T) (s : Service W T) (a : Action T) : Prop :=
  a = .close c ∧ s.imp.requireSocketState = .close ∨
    a = .resume c ∧ s.threads c = .closeReady ∧ s.imp.socketOpened = false

/-- A worker that is told to keep the socket closed, and knows it. -/
def Rests (B : Barrier P) (trace : List Event) (s : Service W T) : Prop :=
  s.imp.requireSocketState = .close ∧ B.calm s.imp s.worker ∧
    ∃ events, s.trace = trace ++ events ∧ ∀ e ∈ events, e.isWorkers = false

theorem Rests.step {trace : List Event} (h : Rests B trace s) (hopen : ∀ t, a ≠ .open t)
    (hstep : Service.step P s a = some s') : Rests B trace s' := by
  obtain ⟨hstate, hcalm, events, htrace, hnone⟩ := h
  have hsteps := Service.step_cases hstep
  by_cases hworker : a.isWorker = true
  · cases hsteps with
    | works hwork =>
        have hreports := (B.step _ _ _ _ hwork).2
        obtain ⟨hnothing, hcalm'⟩ := hreports.quiet hstate hcalm
        refine ⟨hreports.state.trans hstate, hcalm', events, ?_, hnone⟩
        simp [Service.works, hnothing, htrace]
    | _ => simp [Action.isWorker] at hworker
  · have hframe := hsteps.frame fun outcome ha => hworker (ha ▸ rfl)
    obtain ⟨more, hmore, hnone'⟩ := hframe.trace
    refine ⟨?_, ?_, events ++ more, ?_, ?_⟩
    · cases hsteps with
      | @opening t => exact absurd rfl (hopen t)
      | closing _ hopened => exact absurd (hopened.symm.trans hstate) (by simp)
      | works => exact absurd rfl hworker
      | _ => exact hstate
    · apply B.calm_frame _ _ _ hframe.runThd
      obtain heq | heq := hframe.worker
      · rwa [heq]
      · rw [heq]
        exact B.calm_notified _ _ hcalm
    · rw [hmore, htrace, List.append_assoc]
    · exact fun e he => (List.mem_append.mp he).elim (hnone e) (hnone' e)

theorem InBarrier.rests (h : InBarrier B c s) (hreturns : ReturnsFromClose c s a)
    (hstep : Service.step P s a = some s') : Rests B s'.trace s' := by
  have hnothing : ∃ events, s'.trace = s'.trace ++ events ∧ ∀ e ∈ events, e.isWorkers = false :=
    ⟨[], by simp, by simp⟩
  obtain ⟨rfl, hstate⟩ | ⟨rfl, hpc, hopened⟩ := hreturns
  · rw [Service.step] at hstep
    split_ifs at hstep with henter
    obtain rfl := Option.some.inj hstep
    have hcalm := (h.closed hstate).resolve_right fun hin => by
      simp [henter.1, ThreadPc.inClose] at hin
    have hsame : s.closes P c = s := by simp [Service.closes, Imp.close, hstate]
    rw [hsame] at hnothing ⊢
    exact ⟨hstate, hcalm, hnothing⟩
  · have hstate := h.closing (hpc ▸ .inl rfl)
    have hcalm := (h.closed hstate).resolve_right fun hin => by simp [hopened] at hin
    rw [Service.step, Service.resumes] at hstep
    simp only [hpc, hopened, Bool.not_false, ↓reduceIte, Option.some.injEq] at hstep
    subst hstep
    exact ⟨hstate, hcalm, hnothing⟩

/-- What the two calls promise in a reachable state. -/
structure Barriers (P : Program W) (c : T) (s : Service W T) : Prop where
  /-- When `open` is about to return, a socket was opened since it was called. -/
  open_returns : s.threads c = .openReady → s.imp.socketOpened = true →
    ∃ before mid, s.trace = before ++ .opening :: mid ∧ .opening ∉ mid ∧ Established mid
  /-- Once `close` has returned, the worker does nothing until `open` is called. -/
  close_returns : ∀ a s', ReturnsFromClose c s a → Service.step P s a = some s' →
    ∀ s'', Reachable (Service.step P) (fun _ a => ∀ t, a ≠ .open t) s' s'' →
      ∃ events, s''.trace = s'.trace ++ events ∧ ∀ e ∈ events, e.isWorkers = false

theorem InBarrier.barriers (h : InBarrier B c s) : Barriers P c s where
  open_returns hpc hopened := by
    obtain ⟨before, mid, htrace, hnot, hsince⟩ := h.opening (hpc ▸ .inl rfl)
    exact ⟨before, mid, htrace, hnot, hsince.opened hopened⟩
  close_returns a s' hreturns hstep s'' hreach := by
    have hrests : Rests B s'.trace s'' :=
      hreach.invariant (Rests B s'.trace) (h.rests hreturns hstep)
        fun _ _ _ hinv hopen hstep => hinv.step hopen hstep
    exact hrests.2.2

end Barriers

/-- **The barriers.** `open` returns only after the worker has opened a socket for this very call,
and after `close` has returned the worker rests until `open` is called again. -/
theorem open_close_barriers {T : Type} [DecidableEq T] {c : T} {req : Service ReqWorker T}
    {rep : Service RepWorker T}
    (hreq : Reachable (Service.step workerReq) (fun _ a => ControlledBy c a)
      (Service.init workerReq) req)
    (hrep : Reachable (Service.step workerRep) (fun _ a => ControlledBy c a)
      (Service.init workerRep) rep) : Barriers workerReq c req ∧ Barriers workerRep c rep :=
  ⟨(inBarrier_of_reachable barrierReq hreq).barriers,
    (inBarrier_of_reachable barrierRep hrep).barriers⟩

/-- A REQ service that is about to return from `open`, and a REP service from `close`. -/
theorem open_close_barriers_once :
    (∃ req : Service ReqWorker Unit, req.threads () = .openReady ∧
      ∃ before mid, req.trace = before ++ .opening :: mid ∧ .opening ∉ mid ∧ Established mid) ∧
    ∃ rep rep' : Service RepWorker Unit, Service.step workerRep rep (.resume ()) = some rep' ∧
      ∀ s, Reachable (Service.step workerRep) (fun _ a => ∀ t, a ≠ .open t) rep' s →
        ∃ events, s.trace = rep'.trace ++ events ∧ ∀ e ∈ events, e.isWorkers = false := by
  have hopens : ∃ req : Service ReqWorker Unit,
      Reachable (Service.step workerReq) (fun _ a => ControlledBy () a) (Service.init workerReq)
        req ∧ req.threads () = .openReady ∧ req.imp.socketOpened = true :=
    exists_reachable ([.open ()] ++ Action.working 8) (by decide +kernel)
  have hcloses : ∃ rep : Service RepWorker Unit,
      Reachable (Service.step workerRep) (fun _ a => ControlledBy () a) (Service.init workerRep)
        rep ∧ rep.threads () = .closeReady ∧ rep.imp.socketOpened = false ∧
          (Service.step workerRep rep (.resume ())).isSome = true :=
    exists_reachable (List.flatten [[.open ()], Action.working 8, [.resume ()],
      [.worker (.polled false), .close ()], Action.working 5]) (by decide +kernel)
  obtain ⟨req, hreq, hopen, hopened⟩ := hopens
  obtain ⟨rep, hrep, hclose, hclosed, henabled⟩ := hcloses
  obtain ⟨rep', hstep⟩ := Option.isSome_iff_exists.mp henabled
  obtain ⟨hbarrierReq, hbarrierRep⟩ := open_close_barriers hreq hrep
  exact ⟨⟨req, hopen, hbarrierReq.open_returns hopen hopened⟩, rep, rep', hstep,
    hbarrierRep.close_returns _ _ (.inr ⟨rfl, hclose, hclosed⟩) hstep⟩

end Shapeware.ZeroMq
