import Shapeware.Websocket.Service

/-!
# Started means serving

`start` sets `m_runThd` whether `listen` has thrown or not, and it never resets the endpoint. So the
service serves as long as every `start` of a service that is not started meets an endpoint that can
listen and an event loop that can work; the first one that does not leaves `isStarted` true and
nobody there.
-/

namespace Shapeware.Websocket

def ServerPc.insideRun : ServerPc → Bool
  | .run | .calling .. | .inside .. => true
  | .loop | .ended => false

namespace Service

variable {T : Type} {F : PointerFormat} {s s' : Service T} {a : Action T}

def isStarted (s : Service T) : Bool := s.imp.runThd

/-- Between calls of `start` and `stop`, a service that is started listens, and its server thread is
inside of `run` or enters it with its next step. -/
def Serves (s : Service T) : Prop :=
  s.isStarted = true → (∀ t, s.threads t = .idle) →
    s.listening = true ∧
      (s.server.insideRun = true ∨ ∃ s' ∈ s.loops, s'.server.insideRun = true)

/-- The first part: nobody listens but while the service is started, or is being stopped. -/
structure Lively (s : Service T) : Prop where
  idle : s.imp.runThd = true → ∀ t, s.threads t = .idle
  listening : s.imp.runThd = false → s.listening = true → ∃ t, s.threads t = .stopListening
  serving : s.imp.runThd = true → s.listening = true ∧ s.stopped = false ∧ s.server ≠ .ended

theorem goOn_ne_ended (c : Connection) (calls : List Call) : ServerPc.goOn c calls ≠ .ended := by
  cases calls <;> simp [ServerPc.goOn]

namespace Lively

theorem created : Lively (created : Service T) :=
  ⟨by simp [Service.created], by simp [Service.created], by simp [Service.created]⟩

theorem serves (h : s.Lively) : s.Serves := by
  intro hstarted hidle
  obtain ⟨hlistening, hstopped, hserver⟩ := h.serving hstarted
  refine ⟨hlistening, ?_⟩
  cases hpc : s.server with
  | ended => exact absurd hpc hserver
  | run | calling | inside => exact .inl rfl
  | loop =>
      refine .inr ⟨{ s with server := .run }, ?_, rfl⟩
      have hrun : s.imp.runThd = true := hstarted
      simp [loops, hpc, hrun, hstopped]

theorem server (h : s.Lively) (hrun : s'.imp.runThd = s.imp.runThd)
    (hlistening : s'.listening = s.listening) (hstopped : s'.stopped = s.stopped)
    (hthreads : s'.threads = s.threads) (hserver : s.imp.runThd = true → s'.server ≠ .ended) :
    s'.Lively where
  idle := by
    rw [hrun, hthreads]
    exact h.idle
  listening := by
    rw [hrun, hlistening, hthreads]
    exact h.listening
  serving := by
    rw [hrun, hlistening, hstopped]
    exact fun hstarted => ⟨(h.serving hstarted).1, (h.serving hstarted).2.1, hserver hstarted⟩

theorem stopping [DecidableEq T] (h : s.Lively) {t : T} {pc : ThreadPc}
    (hbusy : s.threads t ≠ .idle) (hrun : s'.imp.runThd = s.imp.runThd)
    (hthreads : s'.threads = Function.update s.threads t pc)
    (hlistening : s'.listening = false ∨
      s'.listening = s.listening ∧ s.threads t ≠ .stopListening) : s'.Lively := by
  have hnot : s.imp.runThd = false :=
    eq_false_of_ne_true fun hstarted => hbusy (h.idle hstarted t)
  refine ⟨fun hstarted => ?_, fun _ hlistens => ?_, fun hstarted => ?_⟩
  · exact absurd (hrun.symm.trans hstarted) (by simp [hnot])
  · obtain hfalse | ⟨hsame, hother⟩ := hlistening
    · exact absurd hlistens (by simp [hfalse])
    · obtain ⟨t', ht'⟩ := h.listening hnot (hsame.symm.trans hlistens)
      have hne : t' ≠ t := fun heq => hother (heq ▸ ht')
      exact ⟨t', by rw [hthreads, Function.update_of_ne hne, ht']⟩
  · exact absurd (hrun.symm.trans hstarted) (by simp [hnot])

theorem step [DecidableEq T] (h : s.Lively) (hsequence : s.InSequence a)
    (hlistens : s.StartsListening a) (hstep : s.step F a = some s') : s'.Lively := by
  cases step_cases hstep with
  | «open» | message | close =>
      exact h.server rfl rfl rfl rfl fun _ => by
        rw [handles_server]
        exact goOn_ne_ended _ _
  | skips | returns => exact h.server rfl rfl rfl rfl fun _ => goOn_ne_ended _ _
  | calls | runThrows | runs => exact h.server rfl rfl rfl rfl fun _ => by simp
  | runReturns hserver hlistening =>
      refine ⟨h.idle, h.listening, fun hstarted => ?_⟩
      exact absurd ((h.serving hstarted).1.symm.trans hlistening) (by simp)
  | ends hserver hrun =>
      exact h.server rfl rfl rfl rfl fun hstarted => absurd (hstarted.symm.trans hrun) (by simp)
  | spins | stopsAlready => exact h
  | sends | registers => exact ⟨h.idle, h.listening, h.serving⟩
  | startsAgain hrun =>
      refine ⟨h.idle, fun hnot => absurd (hrun.symm.trans hnot) (by simp), fun hstarted => ?_⟩
      obtain ⟨hlistening, hrest⟩ := h.serving hstarted
      exact ⟨by simp [hlistening], hrest⟩
  | starts hrun hjoinable =>
      obtain ⟨rfl, hstopped⟩ := hlistens _ _ rfl hrun
      exact ⟨fun _ => hsequence, fun hnot => absurd hnot (by simp),
        fun _ => ⟨by simp, hstopped, by simp⟩⟩
  | @stops t hidle hrun =>
      refine ⟨fun hstarted => absurd hstarted (by simp [goesTo]), fun _ _ => ⟨t, ?_⟩,
        fun hstarted => absurd hstarted (by simp [goesTo])⟩
      exact Function.update_self t _ s.threads
  | stopsListening hthread => exact h.stopping (by simp [hthread]) rfl rfl (.inl rfl)
  | copies hthread | closes hthread | closedAll hthread | clears hthread | joins hthread
  | joinsNothing hthread =>
      exact h.stopping (by simp [hthread]) rfl rfl (.inr ⟨rfl, by simp [hthread]⟩)

/-- A `start` that finds nothing to listen on, or an event loop that was stopped. -/
theorem not_serves_of_start [DecidableEq T] (h : s.Lively) {t : T} {listens : Bool}
    (hsequence : s.InSequence (.start t listens)) (hrun : s.imp.runThd = false)
    (hfails : listens = true → s.stopped = true)
    (hstep : s.step F (.start t listens) = some s') : ¬ s'.Serves := by
  have hidle : ∀ t, s.threads t = .idle := hsequence
  have hlistening : s.listening = false := by
    by_contra hlistens
    obtain ⟨t', ht'⟩ := h.listening hrun (eq_true_of_ne_false hlistens)
    exact absurd ((hidle t').symm.trans ht') (by simp)
  cases step_cases hstep with
  | startsAgain hstarted => exact absurd (hstarted.symm.trans hrun) (by simp)
  | starts =>
      intro hserves
      obtain ⟨hlistens, hinside | ⟨s'', hloops, hinside⟩⟩ := hserves rfl hidle
      · simp [ServerPc.insideRun] at hinside
      · have hlistened : listens = true := by simpa [hlistening] using hlistens
        have hstays : s''.server = .loop := by
          simp only [loops, hfails hlistened, if_true, Option.mem_def, Option.some.injEq] at hloops
          exact hloops ▸ rfl
        simp [hstays, ServerPc.insideRun] at hinside

end Lively

/-- **Started means serving.** -/
theorem keeps_serves_iff [DecidableEq T] :
    Runs.Keeps (step F) (fun s a => s.FromWebsocketpp a ∧ s.InSequence a) Serves
        (created : Service T) s ↔
      Runs.Reachable (step F)
        (fun s a => (s.FromWebsocketpp a ∧ s.InSequence a) ∧ s.StartsListening a) created s := by
  have hlively {s : Service T} (h : Runs.Reachable (step F)
      (fun s a => (s.FromWebsocketpp a ∧ s.InSequence a) ∧ s.StartsListening a) created s) :
      s.Lively :=
    h.invariant Lively .created fun _ _ _ hinv hallowed hstep =>
      hinv.step hallowed.1.2 hallowed.2 hstep
  refine Runs.keeps_iff (fun s h => (hlively h).serves) fun s a s' h hallowed hstep hnot => ?_
  simp only [StartsListening, not_forall] at hnot
  obtain ⟨t, listens, rfl, hrun, hfails⟩ := hnot
  exact (hlively h).not_serves_of_start hallowed.2 hrun
    (fun hlistens => by simpa [hlistens] using hfails) hstep

/-- After `stop` the event loop has nothing to do and is stopped; after another `start` the server
thread runs it in vain. -/
theorem not_forall_serves : ¬ ∀ s : Service Unit, Runs.Reachable (step hexFormat)
    (fun s a => s.FromWebsocketpp a ∧ s.InSequence a) created s → s.Serves := by
  refine Runs.not_forall_reachable [.start () true, .serverLoops, .stop (), .resume (),
    .serverReturns, .serverLoops, .resume (), .resume (), .resume (), .resume (), .start () true]
    ⟨_, Option.get_mem (by decide +kernel), fun hserves => ?_⟩
  exact absurd (hserves (by decide +kernel) (by decide +kernel)) (by decide +kernel)

end Service

end Shapeware.Websocket
