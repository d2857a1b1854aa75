import Shapeware.Library.Inevitably
import Shapeware.Websocket.Recipients
import Shapeware.Websocket.Serving

/-!
# When a stop comes to its end

`stop` waits for the server thread, and the server thread for the event loop to run out of work. By
then `stop` has asked the connections of its copy of the map to close. A connection that opens after
the copy was made, as a slow handshake does, is asked by nobody: `stop` waits until the client leaves.
-/

namespace Shapeware.Websocket

/-- The service, and the handles that `m_server->close` was called for. -/
structure Stopping (T : Type) where
  service : Service T
  asked : List Nat

def ThreadPc.beforeCopy : ThreadPc → Bool
  | .idle | .stopListening | .copy => true
  | .close _ | .clear | .join => false

namespace Stopping

variable {T : Type}

def created : Stopping T := ⟨.created, []⟩

variable [DecidableEq T]

/-- The handles that a step calls `m_server->close` for. -/
def asks (s : Service T) : Action T → List Nat
  | .resume t =>
    match s.threads t with
    | .close (hdl :: _) => [hdl]
    | .close [] | .idle | .stopListening | .copy | .clear | .join => []
  | .open _ | .message _ _ | .close _ | .server | .serverReturns | .serverThrows | .serverLoops
  | .sendMessage _ _ | .register _ _ | .start _ _ | .stop _ => []

def step (F : PointerFormat) (s : Stopping T) (a : Action T) : Option (Stopping T) :=
  (s.service.step F a).map fun service => ⟨service, s.asked ++ asks s.service a⟩

/-- The assumptions on websocketpp and on the application. -/
def Allowed (s : Stopping T) (a : Action T) : Prop :=
  s.service.FromWebsocketpp a ∧ s.service.InSequence a

/-- The service goes on by itself: the server thread, the threads in `stop`, and the connections that
websocketpp was asked to close. -/
def GoesOn (s : Stopping T) : Action T → Prop
  | .server | .serverReturns | .serverLoops | .resume _ => True
  | .close c => c ∈ openConnections s.service.trace ∧ c.handle ∈ s.asked
  | .open _ | .message _ _ | .serverThrows | .sendMessage _ _ | .register _ _ | .start _ _
  | .stop _ => False

/-- The connection was asked to close, or will be before `stop` waits for the server thread. -/
def WillClose (s : Stopping T) (t : T) (c : Connection) : Prop :=
  c.handle ∈ s.asked ∨
    match s.service.threads t with
    | .stopListening | .copy => c.handle ∈ s.service.imp.connectionsStrMap
    | .close connections => c.handle ∈ connections
    | .clear | .join | .idle => False

def ClosesAll (s : Stopping T) (t : T) : Prop :=
  ∀ c ∈ openConnections s.service.trace, s.WillClose t c

/-- No connection opens after `stop` has made its copy of the map. -/
def OpensInTime (s : Stopping T) (a : Action T) : Prop :=
  ∀ c, a = .open c → ∀ t, (s.service.threads t).beforeCopy = true

end Stopping

instance {T : Type} [DecidableEq T] [Fintype T] (s : Stopping T) (a : Action T) :
    Decidable (s.Allowed a) := inferInstanceAs (Decidable (_ ∧ _))

instance {T : Type} [Fintype T] (s : Stopping T) (a : Action T) : Decidable (s.OpensInTime a) :=
  match a with
  | .open _ =>
    decidable_of_iff (∀ t, (s.service.threads t).beforeCopy = true) (by simp [Stopping.OpensInTime])
  | .message _ _ | .close _ | .server | .serverReturns | .serverThrows | .serverLoops
  | .sendMessage _ _ | .register _ _ | .start _ _ | .stop _ | .resume _ =>
    isTrue (by simp [Stopping.OpensInTime])

/-! ### What is known of a service that is being stopped -/

namespace Service

variable {T : Type} {F : PointerFormat} {s s' : Service T} {a : Action T} {t : T}

structure Halts (s : Service T) : Prop where
  runThd : ∀ t, s.threads t ≠ .idle → s.imp.runThd = false
  alone : ∀ t u, s.threads t ≠ .idle → s.threads u ≠ .idle → t = u
  listening : ∀ t, s.threads t ≠ .idle → s.threads t ≠ .stopListening → s.listening = false
  thread : s.HasThread
  handles : ((openedConnections s.trace).map Connection.handle).Nodup

namespace Halts

theorem created : Halts (created : Service T) where
  runThd _ h := absurd rfl h
  alone _ _ h := absurd rfl h
  listening _ h := absurd rfl h
  thread _ := rfl
  handles := by simp [Service.created, openedConnections]

/-- A step of the server thread or of the application leaves those in `stop` where they are. -/
theorem frame (h : s.Halts) (hthreads : s'.threads = s.threads)
    (hrun : s'.imp.runThd = s.imp.runThd) (hlistening : s'.listening = s.listening)
    (hthread : s'.HasThread) (hhandles : ((openedConnections s'.trace).map Connection.handle).Nodup) :
    s'.Halts := by
  refine ⟨?_, ?_, ?_, hthread, hhandles⟩
  · rw [hthreads, hrun]
    exact h.runThd
  · rw [hthreads]
    exact h.alone
  · rw [hthreads, hlistening]
    exact h.listening

variable [DecidableEq T]

/-- A thread goes on in `stop`, or comes to its end there. -/
theorem goesOn (h : s.Halts) {pc : ThreadPc} (hbusy : s.threads t ≠ .idle)
    (hthreads : s'.threads = Function.update s.threads t pc) (hrun : s'.imp.runThd = s.imp.runThd)
    (hlistening : s'.listening = false) (hthread : s'.HasThread)
    (htrace : s'.trace = s.trace) : s'.Halts := by
  have hother {u : T} (hu : s'.threads u ≠ .idle) : u = t := by
    by_contra hne
    rw [hthreads, Function.update_of_ne hne] at hu
    exact hne (h.alone u t hu hbusy)
  refine ⟨fun _ _ => hrun.trans (h.runThd t hbusy), fun u u' hu hu' => ?_, fun _ _ _ => hlistening,
    hthread, htrace ▸ h.handles⟩
  exact (hother hu).trans (hother hu').symm

theorem step (h : s.Halts) (hfrom : s.FromWebsocketpp a) (hsequence : s.InSequence a)
    (hstep : s.step F a = some s') : s'.Halts := by
  have hthread := h.thread.step hstep
  have hhandles : ((openedConnections s'.trace).map Connection.handle).Nodup := by
    obtain hsame | ⟨c, rfl, hopened⟩ := openedConnections_step hstep
    · exact hsame ▸ h.handles
    · rw [hopened, List.map_append]
      refine h.handles.append (by simp) ?_
      simpa using fun c' hc' heq => hfrom.1 (List.mem_map.mpr ⟨c', hc', heq⟩)
  cases step_cases hstep with
  | «open» | message | close | calls | skips | returns | runReturns | runThrows | runs | spins
  | ends | sends | registers => exact h.frame rfl rfl rfl hthread hhandles
  | startsAgain | starts =>
      have hidle : ∀ t, s.threads t = .idle := hsequence
      exact ⟨fun t hbusy => absurd (hidle t) hbusy, fun t _ hbusy => absurd (hidle t) hbusy,
        fun t hbusy => absurd (hidle t) hbusy, hthread, hhandles⟩
  | @stops t hidle hrun =>
      have hidle : ∀ t, s.threads t = .idle := hsequence
      have hother {u : T} (hu : Function.update s.threads t .stopListening u ≠ .idle) : u = t := by
        by_contra hne
        exact hu (by rw [Function.update_of_ne hne, hidle])
      refine ⟨fun _ _ => rfl, fun u u' hu hu' => (hother hu).trans (hother hu').symm,
        fun u hu hnot => absurd ?_ hnot, hthread, hhandles⟩
      rw [hother hu]
      exact Function.update_self t _ s.threads
  | stopsAlready => exact h
  | @stopsListening t hpc => exact h.goesOn (by simp [hpc]) rfl rfl rfl hthread rfl
  | @copies t hpc | @closes t _ _ hpc | @closedAll t hpc | @clears t hpc | @joins t hpc
  | @joinsNothing t hpc =>
      have hbusy : s.threads t ≠ .idle := by simp [hpc]
      exact h.goesOn hbusy rfl rfl (h.listening t hbusy (by simp [hpc])) hthread rfl

end Halts

end Service

namespace Stopping

open Service

/-! ### What is left to do -/

section Rank

variable {T : Type}

/-- How far it is to the end of `stop`, with so many connections in the map. -/
def threadRank (size : Nat) : ThreadPc → Nat
  | .stopListening => size + 5
  | .copy => size + 4
  | .close connections => connections.length + 3
  | .clear => 2
  | .join => 1
  | .idle => 0

def serverRank : ServerPc → Nat
  | .ended => 0
  | .loop => 1
  | .run => 2
  | .inside _ _ rest => 2 * rest.length + 3
  | .calling _ _ rest => 2 * rest.length + 4

theorem serverRank_goOn (c : Connection) (calls : List Call) :
    serverRank (.goOn c calls) = 2 * calls.length + 2 := by
  cases calls with
  | nil => rfl
  | cons call rest =>
      simp only [ServerPc.goOn, serverRank, List.length_cons]
      ring

/-- The close of a connection can take a call of the close handler. -/
def rank (s : Service T) (t : T) : Nat :=
  threadRank s.imp.connectionsStrMap.size (s.threads t) + serverRank s.server +
    3 * (openConnections s.trace).length

theorem rank_handles (s : Service T) (e : Event) (c : Connection) (r : Imp × List Call) (t : T) :
    rank (s.handles e c r) t = threadRank r.1.connectionsStrMap.size (s.threads t) +
      (2 * r.2.length + 2) + 3 * (openConnections (s.trace ++ [e])).length := by
  rw [rank, handles_imp, handles_trace, handles_server, serverRank_goOn]
  rfl

theorem threadRank_mono {size size' : Nat} (h : size' ≤ size) (pc : ThreadPc) :
    threadRank size' pc ≤ threadRank size pc := by
  cases pc <;> simp [threadRank, h]

theorem onClose_calls_length (imp : Imp) (hdl : Nat) : (imp.onClose hdl).2.length ≤ 1 := by
  rw [Imp.onClose]
  cases imp.getConnId hdl <;> simp

theorem length_openConnections_close {c : Connection} {trace : List Event}
    (h : c ∈ openConnections trace) :
    (openConnections (trace ++ [.close c])).length < (openConnections trace).length := by
  rw [openConnections_close]
  exact List.length_filter_lt_length_iff_exists.mpr ⟨c, h, by simp⟩

end Rank

section Steps

variable {T : Type} [DecidableEq T] {F : PointerFormat} {s s' : Stopping T} {a : Action T} {t : T}
  {c : Connection}

theorem step_eq_some (h : s.step F a = some s') :
    s.service.step F a = some s'.service ∧ s'.asked = s.asked ++ asks s.service a := by
  obtain ⟨service, hstep, rfl⟩ := Option.map_eq_some_iff.mp h
  exact ⟨hstep, rfl⟩

theorem halts_of_reachable {allowed : Stopping T → Action T → Prop}
    (hle : ∀ s a, allowed s a → s.Allowed a) (h : Runs.Reachable (step F) allowed created s) :
    s.service.Halts :=
  h.invariant (fun s : Stopping T => s.service.Halts) .created fun s a _ hinv hallowed hstep =>
    hinv.step (hle s a hallowed).1 (hle s a hallowed).2 (step_eq_some hstep).1

/-- A step by which the service goes on lowers the rank. -/
theorem rank_lt (h : s.service.Halts) (hbusy : s.service.threads t ≠ .idle) (hgoes : s.GoesOn a)
    (hstep : s.step F a = some s') : rank s'.service t < rank s.service t := by
  have hrun := h.runThd t hbusy
  have hservice := (step_eq_some hstep).1
  generalize s'.service = service at hservice ⊢
  cases step_cases hservice with
  | «open» | message | runThrows | sends | registers | startsAgain | starts | stops
  | stopsAlready => cases hgoes
  | @close c hserver =>
      have hclosed := length_openConnections_close hgoes.1
      have hcalls := onClose_calls_length s.service.imp c.handle
      have hmap : threadRank (s.service.imp.onClose c.handle).1.connectionsStrMap.size
          (s.service.threads t) ≤
            threadRank s.service.imp.connectionsStrMap.size (s.service.threads t) :=
        threadRank_mono Std.ExtTreeMap.size_erase_le _
      rw [rank_handles, rank, hserver, serverRank]
      omega
  | calls hserver =>
      rw [rank, rank, openConnections_of_quiet (by simp [Event.isQuiet]), hserver]
      simp [serverRank]
  | skips hserver | returns hserver =>
      rw [rank, rank, hserver, serverRank_goOn]
      simp [serverRank]
  | runReturns hserver | ends hserver => simp [rank, hserver, serverRank]
  | runs _ hrunning | spins _ hrunning => exact absurd (hrunning.symm.trans hrun) (by simp)
  | @stopsListening u hpc | @copies u hpc | @closes u _ _ hpc | @closedAll u hpc | @clears u hpc
  | @joins u hpc | @joinsNothing u hpc =>
      obtain rfl : u = t := h.alone u t (by simp [hpc]) hbusy
      simp [rank, goesTo, hpc, threadRank]

/-! ### Who will be asked -/

theorem mem_openConnections_open {c' : Connection} {trace : List Event}
    (hc : c ∈ openConnections (trace ++ [.open c'])) : c ∈ openConnections trace ∨ c = c' := by
  have hopened : openedConnections (trace ++ [.open c']) = openedConnections trace ++ [c'] := by
    simp [openedConnections]
  have hclosed : closedConnections (trace ++ [.open c']) = closedConnections trace := by
    simp [closedConnections]
  rw [mem_openConnections, hopened, hclosed] at hc
  obtain hbefore | heq := List.mem_append.mp hc.1
  · exact .inl ((mem_openConnections _ _).mpr ⟨hbefore, hc.2⟩)
  · exact .inr (List.mem_singleton.mp heq)

/-- Only `stop` takes connections out of the map that are still open. -/
theorem mem_map_iff {service service' : Service T}
    (hhandles : ((openedConnections service.trace).map Connection.handle).Nodup)
    (hfrom : service.FromWebsocketpp a) (hresume : ∀ t, a ≠ .resume t)
    (hservice : service.step F a = some service') (hc : c ∈ openConnections service.trace)
    (hc' : c ∈ openConnections service'.trace) :
    c.handle ∈ service'.imp.connectionsStrMap ↔ c.handle ∈ service.imp.connectionsStrMap := by
  have hopened := (List.mem_filter.mp hc).1
  cases step_cases hservice with
  | @«open» c' =>
      have hne : c'.handle ≠ c.handle := fun heq => hfrom.1 (heq ▸ List.mem_map_of_mem hopened)
      rw [handles_imp, Imp.onOpen, Std.ExtTreeMap.mem_insertIfNew,
        Std.LawfulEqOrd.compare_eq_iff_eq]
      exact or_iff_right hne
  | @close c' =>
      have hne : c'.handle ≠ c.handle := by
        intro heq
        obtain rfl := List.inj_on_of_nodup_map hhandles (List.mem_filter.mp hfrom).1 hopened heq
        rw [handles_trace, openConnections_close] at hc'
        exact absurd (List.mem_filter.mp hc').2 (by simp)
      rw [handles_imp, Imp.onClose, Std.ExtTreeMap.mem_erase, ne_eq,
        Std.LawfulEqOrd.compare_eq_iff_eq]
      exact and_iff_right hne
  | message | calls | skips | returns | runReturns | runThrows | runs | spins | ends | sends
  | registers | startsAgain | starts | stops | stopsAlready => rfl
  | stopsListening | copies | closes | closedAll | clears | joins | joinsNothing =>
      exact absurd rfl (hresume _)

/-- While `stop` goes on, it depends on the connection alone whether it will be asked to close. -/
theorem willClose_iff (h : s.service.Halts) (hbusy : s.service.threads t ≠ .idle)
    (hallowed : s.Allowed a) (hstep : s.step F a = some s')
    (hc : c ∈ openConnections s.service.trace) (hc' : c ∈ openConnections s'.service.trace) :
    s'.WillClose t c ↔ s.WillClose t c := by
  obtain ⟨hfrom, hsequence⟩ := hallowed
  obtain ⟨hservice, hasked⟩ := step_eq_some hstep
  rw [WillClose, WillClose, hasked]
  generalize s'.service = service at hservice hc' ⊢
  have hmap (hresume : ∀ t, a ≠ .resume t) := mem_map_iff h.handles hfrom hresume hservice hc hc'
  cases step_cases hservice with
  | «open» | close | message | sends =>
      rw [hmap (by simp), asks, List.append_nil]
      rfl
  | calls | skips | returns | runReturns | runThrows | runs | spins | ends | registers
  | stopsAlready => rw [hmap (by simp), asks, List.append_nil]
  | startsAgain | starts | stops => exact absurd (hsequence t) hbusy
  | @copies u hpc =>
      obtain rfl : u = t := h.alone u t (by simp [hpc]) hbusy
      simp [asks, goesTo, hpc, Std.ExtTreeMap.map_fst_toList_eq_keys, Std.ExtTreeMap.mem_keys]
  | @stopsListening u hpc | @closes u _ _ hpc | @closedAll u hpc | @clears u hpc | @joins u hpc
  | @joinsNothing u hpc =>
      obtain rfl : u = t := h.alone u t (by simp [hpc]) hbusy
      simp [asks, goesTo, hpc, or_assoc]

theorem openConnections_step (hstep : s.step F a = some s')
    (hc : c ∈ openConnections s'.service.trace) :
    c ∈ openConnections s.service.trace ∨ a = .open c := by
  have hservice := (step_eq_some hstep).1
  generalize s'.service = service at hservice hc
  cases step_cases hservice with
  | @«open» c' => exact (mem_openConnections_open hc).imp_right fun (heq : c = c') => heq ▸ rfl
  | @close c' =>
      rw [handles_trace, openConnections_close] at hc
      exact .inl (List.mem_of_mem_filter hc)
  | @message c' payload => exact .inl (by simpa [openConnections, openedConnections,
      closedConnections] using hc)
  | calls => exact .inl (by rwa [openConnections_of_quiet (by simp [Event.isQuiet])] at hc)
  | sends =>
      rw [sends, openConnections_of_quiet (by simp [Event.isQuiet])] at hc
      exact .inl hc
  | skips | returns | runReturns | runThrows | runs | spins | ends | registers | startsAgain
  | starts | stops | stopsAlready | stopsListening | copies | closes | closedAll | clears | joins
  | joinsNothing => exact .inl hc

/-- The server thread does not enter `run` again. -/
theorem insideRun_of_step (h : s.service.Halts) (hbusy : s.service.threads t ≠ .idle)
    (hallowed : s.Allowed a) (hstep : s.step F a = some s')
    (hinside : s'.service.server.insideRun = true) : s.service.server.insideRun = true := by
  have hservice := (step_eq_some hstep).1
  generalize s'.service = service at hservice hinside
  cases step_cases hservice with
  | «open» hserver | message hserver | close hserver | calls hserver | skips hserver
  | returns hserver | runReturns hserver | runThrows hserver => simp [hserver, ServerPc.insideRun]
  | runs _ hrun => exact absurd (hrun.symm.trans (h.runThd t hbusy)) (by simp)
  | ends => simp [ServerPc.insideRun] at hinside
  | startsAgain | starts => exact absurd (hallowed.2 t) hbusy
  | spins | sends | registers | stops | stopsAlready | stopsListening | copies | closes | closedAll
  | clears | joins | joinsNothing => exact hinside

omit [DecidableEq T] in
theorem GoesOn.allowed (h : s.GoesOn a) : s.Allowed a := by
  cases a with
  | close c => exact ⟨h.1, trivial⟩
  | server | serverReturns | serverLoops | resume => exact ⟨trivial, trivial⟩
  | «open» | message | serverThrows | sendMessage | register | start | stop => cases h

theorem closesAll_step (h : s.service.Halts) (hbusy : s.service.threads t ≠ .idle)
    (hcloses : s.ClosesAll t) (hgoes : s.GoesOn a) (hstep : s.step F a = some s') :
    s'.ClosesAll t := by
  intro c hc
  obtain hbefore | rfl := openConnections_step hstep hc
  · exact (willClose_iff h hbusy hgoes.allowed hstep hbefore hc).mpr (hcloses c hbefore)
  · cases hgoes

theorem exists_step (h : s.service.Halts) (hbusy : s.service.threads t ≠ .idle)
    (hcloses : s.service.server.insideRun = true → s.ClosesAll t) :
    ∃ a s', s.GoesOn a ∧ s.step F a = some s' := by
  have hgo {a : Action T} (hgoes : s.GoesOn a) (hsome : (s.service.step F a).isSome) :
      ∃ a s', s.GoesOn a ∧ s.step F a = some s' := by
    obtain ⟨service, hservice⟩ := Option.isSome_iff_exists.mp hsome
    exact ⟨a, _, hgoes, Option.map_eq_some_iff.mpr ⟨service, hservice, rfl⟩⟩
  cases hpc : s.service.threads t with
  | idle => exact absurd hpc hbusy
  | stopListening | copy | clear =>
      exact hgo (a := .resume t) trivial (by simp [Service.step, resumes, hpc])
  | close connections =>
      refine hgo (a := .resume t) trivial ?_
      cases connections <;> simp [Service.step, resumes, hpc]
  | join =>
      cases hserver : s.service.server with
      | ended =>
          refine hgo (a := .resume t) trivial ?_
          by_cases hjoinable : s.service.joinable = true <;>
            simp [Service.step, resumes, hpc, hserver, hjoinable]
      | loop => exact hgo (a := .serverLoops) trivial (by simp [Service.step, loops, hserver])
      | calling c call rest =>
          exact hgo (a := .server) trivial (by simp [Service.step, serves, hserver])
      | inside c call rest =>
          exact hgo (a := .server) trivial (by simp [Service.step, serves, hserver])
      | run =>
          -- the event loop has run out of work, or one of the connections closes
          cases hopen : openConnections s.service.trace with
          | nil =>
              have hlistening := h.listening t hbusy (by simp [hpc])
              refine hgo (a := .serverReturns) trivial ?_
              simp [Service.step, hserver, hopen, hlistening]
          | cons c connections =>
              have hc : c ∈ openConnections s.service.trace := by simp [hopen]
              have hasked : c.handle ∈ s.asked := by
                have hwill := hcloses (by simp [hserver, ServerPc.insideRun]) c hc
                simpa [WillClose, hpc] using hwill
              exact hgo (a := .close c) ⟨hc, hasked⟩ (by simp [Service.step, hserver])

/-- If all connections are asked to close, `stop` comes to its end. -/
theorem inevitably_idle (h : s.service.Halts)
    (hcloses : s.service.server.insideRun = true → s.ClosesAll t) :
    Runs.Inevitably (step F) GoesOn (fun s' => s'.service.threads t = .idle) s := by
  refine (Runs.inevitably_of_rank (P := fun s' : Stopping T => s'.service.threads t = .idle)
    (fun s => s.service.Halts ∧ (s.service.server.insideRun = true → s.ClosesAll t))
    (fun s => rank s.service t) ?_ ?_ ⟨h, hcloses⟩).mono fun _ hend => hend.1
  · rintro s ⟨h, hcloses⟩ hbusy
    exact exists_step h hbusy hcloses
  · rintro s a s' ⟨h, hcloses⟩ hbusy hgoes hstep
    refine ⟨⟨h.step hgoes.allowed.1 hgoes.allowed.2 (step_eq_some hstep).1, fun hinside => ?_⟩,
      rank_lt h hbusy hgoes hstep⟩
    exact closesAll_step h hbusy
      (hcloses (insideRun_of_step h hbusy hgoes.allowed hstep hinside)) hgoes hstep

/-- A connection that nobody asks to close keeps the server thread in `run`, and that `stop`. -/
structure Waits (s : Stopping T) (t : T) (c : Connection) : Prop where
  halts : s.service.Halts
  busy : s.service.threads t ≠ .idle
  inside : s.service.server.insideRun = true
  mem : c ∈ openConnections s.service.trace
  unasked : ¬ s.WillClose t c

namespace Waits

theorem of_step (h : s.Waits t c) (hgoes : s.GoesOn a) {service : Service T}
    (hservice : s.service.step F a = some service) :
    service.threads t ≠ .idle ∧ service.server.insideRun = true ∧
      c ∈ openConnections service.trace := by
  have hinside := h.inside
  have hgoOn (c : Connection) (calls : List Call) : (ServerPc.goOn c calls).insideRun = true := by
    cases calls <;> rfl
  cases step_cases hservice with
  | «open» | message | runThrows | sends | registers | startsAgain | starts | stops
  | stopsAlready => cases hgoes
  | @close c' hserver =>
      have hne : c ≠ c' := fun heq => h.unasked (.inl (heq ▸ hgoes.2))
      refine ⟨h.busy, hgoOn _ _, ?_⟩
      rw [handles_trace, openConnections_close]
      exact List.mem_filter.mpr ⟨h.mem, by simpa using hne⟩
  | calls =>
      refine ⟨h.busy, rfl, ?_⟩
      rw [openConnections_of_quiet (by simp [Event.isQuiet])]
      exact h.mem
  | skips | returns => exact ⟨h.busy, hgoOn _ _, h.mem⟩
  | runReturns _ _ hnone => exact absurd (hnone ▸ h.mem) List.not_mem_nil
  | runs hserver | spins hserver | ends hserver => simp [hserver, ServerPc.insideRun] at hinside
  | @stopsListening u hpc | @copies u hpc | @closes u _ _ hpc | @closedAll u hpc | @clears u hpc =>
      obtain rfl : u = t := h.halts.alone u t (by simp [hpc]) h.busy
      exact ⟨by simp [goesTo], hinside, h.mem⟩
  | joins _ hended => simp [hended, ServerPc.insideRun] at hinside
  | joinsNothing _ hjoinable =>
      simp [h.halts.thread hjoinable, ServerPc.insideRun] at hinside

theorem step (h : s.Waits t c) (hgoes : s.GoesOn a) (hstep : s.step F a = some s') :
    s'.Waits t c := by
  obtain ⟨hbusy, hinside, hmem⟩ := h.of_step hgoes (step_eq_some hstep).1
  have hwill := willClose_iff h.halts h.busy hgoes.allowed hstep h.mem hmem
  exact ⟨h.halts.step hgoes.allowed.1 hgoes.allowed.2 (step_eq_some hstep).1, hbusy, hinside, hmem,
    fun hc => h.unasked (hwill.mp hc)⟩

theorem not_inevitably (h : s.Waits t c) :
    ¬ Runs.Inevitably (Stopping.step F) GoesOn (fun s' => s'.service.threads t = .idle) s :=
  Runs.not_inevitably_of_invariant (fun s => s.Waits t c) h (fun _ _ _ hwaits => hwaits.step)
    fun _ hwaits => hwaits.busy

end Waits

/-- **The end of a stop.** With the server thread and the connections that were asked to close going
on, in any order, `stop` comes to its end if and only if the server thread is out of `run` already or
every open connection was asked to close, or will be. -/
theorem stop_ends_iff (h : Runs.Reachable (step F) Allowed created s)
    (hbusy : s.service.threads t ≠ .idle) :
    Runs.Inevitably (step F) GoesOn (fun s' => s'.service.threads t = .idle) s ↔
      (s.service.server.insideRun = true → s.ClosesAll t) := by
  have hhalts := halts_of_reachable (fun _ _ hallowed => hallowed) h
  refine ⟨fun hend hinside c hc => ?_, inevitably_idle hhalts⟩
  by_contra hunasked
  exact Waits.not_inevitably ⟨hhalts, hbusy, hinside, hc, hunasked⟩ hend

/-- A second client opens its connection when `stop` has asked the first one to close. -/
theorem stop_ends_iff_late : ∃ s : Stopping Unit, s.service.threads () = .join ∧
    openConnections s.service.trace = [⟨5, 300⟩, ⟨6, 400⟩] ∧ s.asked = [5] ∧
      ¬ Runs.Inevitably (step hexFormat) GoesOn (fun s' => s'.service.threads () = .idle) s := by
  obtain ⟨s, hs, hpc, hopen, hasked, hinside⟩ : ∃ s : Stopping Unit,
      Runs.Reachable (step hexFormat) Allowed created s ∧ s.service.threads () = .join ∧
      openConnections s.service.trace = [⟨5, 300⟩, ⟨6, 400⟩] ∧ s.asked = [5] ∧
      s.service.server.insideRun = true :=
    Runs.exists_reachable [.start () true, .serverLoops, .open ⟨5, 300⟩, .server, .server, .stop (),
      .resume (), .resume (), .resume (), .open ⟨6, 400⟩, .resume (), .resume ()]
      (by decide +kernel)
  refine ⟨s, hpc, hopen, hasked, fun hend => ?_⟩
  have hcloses := (stop_ends_iff hs (by simp [hpc])).mp hend hinside ⟨6, 400⟩ (by simp [hopen])
  simp [WillClose, hpc, hasked] at hcloses

/-! ### Connections that open in time -/

/-- The connection was asked to close, or is in the map that is still to be copied, or in the copy. -/
def Knows (s : Stopping T) (c : Connection) : Prop :=
  c.handle ∈ s.asked ∨
    ((∀ t, (s.service.threads t).beforeCopy = true) ∧
      c.handle ∈ s.service.imp.connectionsStrMap) ∨
    ∃ t connections, s.service.threads t = .close connections ∧ c.handle ∈ connections

omit [DecidableEq T] in
theorem Knows.willClose (hknows : s.Knows c) (h : s.service.Halts)
    (hbusy : s.service.threads t ≠ .idle) : s.WillClose t c := by
  obtain hasked | ⟨hbefore, hmap⟩ | ⟨u, connections, hpc, hmem⟩ := hknows
  · exact .inl hasked
  · refine .inr ?_
    have hbefore := hbefore t
    cases hpc : s.service.threads t with
    | stopListening | copy => exact hmap
    | idle => exact absurd hpc hbusy
    | close | clear | join => simp [hpc, ThreadPc.beforeCopy] at hbefore
  · obtain rfl : u = t := h.alone u t (by simp [hpc]) hbusy
    exact .inr (hpc ▸ hmem)

omit [DecidableEq T] in
theorem WillClose.knows (hwill : s.WillClose t c) (h : s.service.Halts) : s.Knows c := by
  obtain hasked | hwill := hwill
  · exact .inl hasked
  · cases hpc : s.service.threads t with
    | stopListening | copy =>
        rw [hpc] at hwill
        refine .inr (.inl ⟨fun u => ?_, hwill⟩)
        by_cases hidle : s.service.threads u = .idle
        · rw [hidle]
          rfl
        · obtain rfl : u = t := h.alone u t hidle (by simp [hpc])
          rw [hpc]
          rfl
    | close connections => exact .inr (.inr ⟨t, connections, hpc, by rwa [hpc] at hwill⟩)
    | clear | join | idle => simp [hpc] at hwill

/-- While nobody stops the service, its open connections stay in the map. -/
theorem Knows.serving (hknows : s.Knows c) (hidle : ∀ t, s.service.threads t = .idle)
    (hallowed : s.Allowed a) (hstep : s.step F a = some s')
    (hhandles : ((openedConnections s.service.trace).map Connection.handle).Nodup)
    (hc : c ∈ openConnections s.service.trace) (hc' : c ∈ openConnections s'.service.trace) :
    s'.Knows c := by
  obtain ⟨hservice, hasked⟩ := step_eq_some hstep
  obtain hmem | ⟨-, hmap⟩ | ⟨t, connections, hpc, -⟩ := hknows
  · exact .inl (hasked ▸ List.mem_append_left _ hmem)
  · have hresume (t : T) : a ≠ .resume t := by
      rintro rfl
      simp [Service.step, resumes, hidle] at hservice
    refine .inr (.inl ⟨fun t => ?_, (mem_map_iff hhandles hallowed.1 hresume hservice hc hc').mpr hmap⟩)
    have hbefore (t : T) : (s.service.threads t).beforeCopy = true := hidle t ▸ rfl
    generalize s'.service = service at hservice ⊢
    cases step_cases hservice with
    | «open» | close | message | calls | skips | returns | runReturns | runThrows | runs | spins
    | ends | sends | registers | startsAgain | starts | stopsAlready => exact hbefore t
    | @stops u =>
        by_cases htu : t = u
        · simp [goesTo, htu, ThreadPc.beforeCopy]
        · simpa [goesTo, Function.update_of_ne htu] using hbefore t
    | stopsListening | copies | closes | closedAll | clears | joins | joinsNothing =>
        exact absurd rfl (hresume _)
  · simp [hidle] at hpc

/-- Every open connection is known. -/
def Known (s : Stopping T) : Prop := ∀ c ∈ openConnections s.service.trace, s.Knows c

theorem Known.step (hknown : s.Known) (h : s.service.Halts) (hallowed : s.Allowed a)
    (hintime : s.OpensInTime a) (hstep : s.step F a = some s') : s'.Known := by
  intro c hc
  obtain hbefore | rfl := openConnections_step hstep hc
  · by_cases hidle : ∀ t, s.service.threads t = .idle
    · exact (hknown c hbefore).serving hidle hallowed hstep h.handles hbefore hc
    · obtain ⟨t, hbusy⟩ := not_forall.mp hidle
      have hwill := (hknown c hbefore).willClose h hbusy
      have hhalts := h.step hallowed.1 hallowed.2 (step_eq_some hstep).1
      exact ((willClose_iff h hbusy hallowed hstep hbefore hc).mpr hwill).knows hhalts
  · have hservice := (step_eq_some hstep).1
    refine .inr (.inl ?_)
    generalize s'.service = service at hservice ⊢
    cases step_cases hservice with
    | «open» => exact ⟨hintime c rfl, Std.ExtTreeMap.mem_insertIfNew_self⟩

/-- **Every stop comes to its end** as long as no connection opens after a copy of the map was made:
all open connections are in the map or in the copy, or were asked to close. -/
theorem stop_ends
    (h : Runs.Reachable (step F) (fun s a => s.Allowed a ∧ s.OpensInTime a) created s) :
    s.Known ∧ ∀ t, s.service.threads t ≠ .idle →
      Runs.Inevitably (step F) GoesOn (fun s' => s'.service.threads t = .idle) s := by
  have hhalts := halts_of_reachable (fun _ _ hallowed => hallowed.1) h
  have hknown : s.Known := by
    refine h.invariant_of_reachable Known ?_ fun s a s' hreach hinv hallowed hstep => ?_
    · simp [Known, created, Service.created, openConnections, openedConnections]
    · have hbefore := halts_of_reachable (fun _ _ hallowed => hallowed.1) hreach
      exact hinv.step hbefore hallowed.1 hallowed.2 hstep
  exact ⟨hknown, fun t hbusy =>
    inevitably_idle hhalts fun _ c hc => (hknown c hc).willClose hhalts hbusy⟩

/-- A client is connected when the service is stopped. -/
theorem stop_ends_client : ∃ s : Stopping Unit, s.service.threads () = .stopListening ∧
    openConnections s.service.trace = [⟨5, 300⟩] ∧ s.Known ∧
      Runs.Inevitably (step hexFormat) GoesOn (fun s' => s'.service.threads () = .idle) s := by
  obtain ⟨s, hs, hpc, hopen⟩ : ∃ s : Stopping Unit, Runs.Reachable (step hexFormat)
      (fun s a => s.Allowed a ∧ s.OpensInTime a) created s ∧
      s.service.threads () = .stopListening ∧ openConnections s.service.trace = [⟨5, 300⟩] :=
    Runs.exists_reachable [.start () true, .serverLoops, .open ⟨5, 300⟩, .stop ()]
      (by decide +kernel)
  obtain ⟨hknown, hends⟩ := stop_ends hs
  exact ⟨s, hpc, hopen, hknown, hends () (by simp [hpc])⟩

end Steps

end Stopping

end Shapeware.Websocket
