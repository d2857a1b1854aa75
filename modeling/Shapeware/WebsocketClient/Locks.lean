import Shapeware.WebsocketClient.Client
import Shapeware.Library.Mutexes

/-!
# The mutex of the websocket client

`on_open` and `on_close` call the handler of the application with `m_connectedMux` locked, which
`connect`, `close` and `isConnected` lock.
-/

namespace Shapeware.WebsocketClient

inductive Mutex
  | connectedMux
deriving DecidableEq

/-- The functions of `IWebsocketClientService`, by their names. -/
inductive Method
  | registerMessageHandler
  | registerMessageStrHandler
  | registerOpenHandler
  | registerCloseHandler
  | unregisterMessageHandler
  | unregisterMessageStrHandler
  | unregisterOpenHandler
  | unregisterCloseHandler
  | sendMessage
  | sendPing
  | connect
  | close
  | isConnected
deriving DecidableEq

def Method.locks : Method → List Mutex
  | .connect | .close | .isConnected => [.connectedMux]
  | _ => []

variable {T : Type}

def Action.owner : Action T → Option (Owner T)
  | .callback _ | .library => some .library
  | .connect t _ | .close t | .resume t => some (.thread t)
  | .wakes _ | .register .. | .succeeds _ | .fails _ | .ends _ => none

def LibraryPc.holdsMux : LibraryPc → Bool
  | .openHandler _ | .closeHandler _ => true
  | .run | .onOpen _ | .onFail _ | .onClose _ => false

/-- The open or the close handler, while the library thread is running it. -/
def LibraryPc.running : LibraryPc → Option Handler
  | .openHandler _ => some .open
  | .closeHandler _ => some .close
  | .run | .onOpen _ | .onFail _ | .onClose _ => none

def ThreadPc.holdsMux : ThreadPc → Bool
  | .idle => false
  | .connect _ w => w.holdsMux

@[simp] theorem ThreadPc.holdsMux_notified (pc : ThreadPc) : pc.notified.holdsMux = pc.holdsMux := by
  cases pc with
  | idle => rfl
  | connect hdl w => cases w <;> rfl

theorem LibraryPc.holdsMux_of_running {pc : LibraryPc} {handler : Handler}
    (hrunning : pc.running = some handler) : pc.holdsMux = true := by
  cases pc with
  | openHandler | closeHandler => rfl
  | _ => cases hrunning

namespace Client

/-- Where a thread is says whether it holds `m_connectedMux`. -/
def holdsMux (s : Client T) : Owner T → Bool
  | .library => s.library.holdsMux
  | .thread t => (s.threads t).holdsMux

/-- `m_connectedMux` is held by the thread that is where it must hold it. -/
def Consistent (s : Client T) : Prop := ∀ o, s.connectedMux = some o ↔ s.holdsMux o = true

variable [DecidableEq T] {s s' : Client T} {a : Action T} {o : Owner T}

namespace Consistent

omit [DecidableEq T] in
theorem same (h : s.Consistent) (hmux : s'.connectedMux = s.connectedMux)
    (hholds : ∀ o, s'.holdsMux o = s.holdsMux o) : s'.Consistent := fun o => by
  rw [hmux, hholds, h o]

theorem locks (h : s.Consistent) (hfree : s.connectedMux = none)
    (hmux : s'.connectedMux = some o)
    (hholds : ∀ o', s'.holdsMux o' = if o' = o then true else s.holdsMux o') :
    s'.Consistent := fun o' => by
  by_cases ho : o' = o
  · simp [hmux, hholds, ho]
  · simp [hmux, hholds, ho, Ne.symm ho, ← h o', hfree]

theorem unlocks (h : s.Consistent) (hheld : s.holdsMux o = true) (hmux : s'.connectedMux = none)
    (hholds : ∀ o', s'.holdsMux o' = if o' = o then false else s.holdsMux o') :
    s'.Consistent := fun o' => by
  have howner : s.connectedMux = some o := (h o).mpr hheld
  by_cases ho : o' = o
  · simp [hmux, hholds, ho]
  · simp [hmux, hholds, ho, ← h o', howner, Ne.symm ho]

end Consistent

theorem holdsMux_of_goesTo {t : T} {pc : ThreadPc} {b : Bool} (hlibrary : s'.library = s.library)
    (hthreads : s'.threads = Function.update s.threads t pc) (hpc : pc.holdsMux = b) :
    s'.holdsMux o = if o = .thread t then b else s.holdsMux o := by
  cases o with
  | library => simp [holdsMux, hlibrary]
  | thread t' =>
      by_cases ht : t' = t <;> simp [holdsMux, hthreads, ht, hpc]

theorem holdsMux_goesTo {t : T} {pc : ThreadPc} (hpc : pc.holdsMux = (s.threads t).holdsMux) :
    (s.goesTo t pc).holdsMux o = s.holdsMux o := by
  cases o with
  | library => rfl
  | thread t' =>
      by_cases ht : t' = t <;> simp [holdsMux, goesTo, ht, hpc]

omit [DecidableEq T] in
@[simp] theorem holdsMux_sets (connected : Bool) (e : Event) :
    (s.sets connected e).holdsMux o = s.holdsMux o := by
  cases o with
  | library => rfl
  | thread t => exact ThreadPc.holdsMux_notified _

omit [DecidableEq T] in
theorem holdsMux_calls (handler : Handler) (pc : LibraryPc) (t : T) :
    (s.calls handler pc).holdsMux (.thread t) = s.holdsMux (.thread t) := by
  rw [calls]
  split <;> rfl

omit [DecidableEq T] in
@[simp] theorem holdsMux_closesSession : s.closesSession.holdsMux o = s.holdsMux o := by
  obtain heq | ⟨_, _, _, _, heq⟩ := s.closesSession_cases <;> rw [heq]
  rfl

omit [DecidableEq T] in
theorem consistent_activated (registered : Handler → Bool) :
    (activated registered : Client T).Consistent := by
  rintro (_ | t) <;> exact iff_of_false nofun nofun

theorem Consistent.calls (h : s.Consistent) (hfree : s.connectedMux = none) {handler : Handler}
    {pc : LibraryPc} (hpc : pc.holdsMux = true) : (s.calls handler pc).Consistent := by
  rw [Client.calls]
  split
  · refine h.locks hfree (o := .library) rfl ?_
    rintro (_ | t)
    · exact hpc
    · rfl
  · refine h.same rfl ?_
    rintro (_ | t)
    · exact (eq_false_of_ne_true fun hholds => by simp [(h .library).mpr hholds] at hfree).symm
    · rfl

theorem consistent_step (h : s.Consistent) (hstep : s.step a = some s') : s'.Consistent := by
  cases step_cases hstep with
  | connectsNot => exact h
  | connects hlock _ _ => exact h.locks hlock.2 rfl fun _ => holdsMux_of_goesTo rfl rfl rfl
  | closes => exact h.same (by simp) fun o => by simp
  | @blocks t hdl hthread _ =>
      exact h.same rfl fun o => holdsMux_goesTo (by rw [hthread]; rfl)
  | returns hthread _ _ | sleeps hthread =>
      refine h.unlocks ?_ rfl fun _ => holdsMux_of_goesTo rfl rfl rfl
      simp [holdsMux, hthread, ThreadPc.holdsMux, Wait.holdsMux]
  | retests hthread hmux => exact h.locks hmux rfl fun _ => holdsMux_of_goesTo rfl rfl rfl
  | @wakes t => exact h.same rfl fun o => holdsMux_goesTo (ThreadPc.holdsMux_notified _)
  | registers => exact h.same rfl fun o => by cases o <;> rfl
  | succeeds | fails | ends => exact h.same rfl fun o => by cases o <;> rfl
  | @begins hdl state cb owed hlibrary _ =>
      refine h.same (by simp) ?_
      rintro (_ | t)
      · cases cb <;> simp [holdsMux, Client.begins, hlibrary, LibraryPc.holdsMux]
      · cases cb <;> rfl
  | @opens hdl hlibrary hmux =>
      have hset : (s.sets true (.opened hdl)).Consistent := h.same rfl fun _ => holdsMux_sets _ _
      exact hset.calls hmux rfl
  | @closed hdl hlibrary hmux =>
      have hset : (s.sets false (.closed hdl)).Consistent := h.same rfl fun _ => holdsMux_sets _ _
      exact hset.calls hmux rfl
  | failed hlibrary hmux =>
      refine h.same rfl ?_
      rintro (_ | t)
      · simp [holdsMux, hlibrary, LibraryPc.holdsMux]
      · exact ThreadPc.holdsMux_notified _
  | handled hlibrary =>
      refine h.unlocks (o := .library) ?_ rfl ?_
      · obtain hlibrary | hlibrary := hlibrary <;> simp [holdsMux, hlibrary, LibraryPc.holdsMux]
      · rintro (_ | t) <;> rfl

/-- A thread that holds the mutex gives it up by a step of its own. -/
theorem holdsMux_of_step (hstep : s.step a = some s') (hother : a.owner ≠ some o)
    (hholds : s.holdsMux o = true) : s'.holdsMux o = true := by
  cases step_cases hstep with
  | @connects t | @blocks t | @returns t | @sleeps t | @retests t =>
      have ho : o ≠ .thread t := fun ho => hother (by rw [ho]; rfl)
      refine Eq.trans (holdsMux_of_goesTo (s := s) (t := t) rfl rfl rfl) ?_
      rwa [if_neg ho]
  | connectsNot => exact hholds
  | closes => simpa using hholds
  | wakes => exact (holdsMux_goesTo (ThreadPc.holdsMux_notified _)).trans hholds
  | registers | succeeds | fails | ends => cases o <;> exact hholds
  | @begins hdl state cb owed hlibrary _ =>
      cases o with
      | library => exact absurd rfl hother
      | thread t => cases cb <;> exact hholds
  | opens | closed =>
      cases o with
      | library => exact absurd rfl hother
      | thread t => exact (holdsMux_calls _ _ t).trans ((holdsMux_sets _ _).trans hholds)
  | failed =>
      cases o with
      | library => exact absurd rfl hother
      | thread t => exact (ThreadPc.holdsMux_notified _).trans hholds
  | handled =>
      cases o with
      | library => exact absurd rfl hother
      | thread t => exact hholds

/-! ### The component -/

/-- The client with what is seen of its mutex and of the open and the close handler. -/
def component (registered : Handler → Bool) :
    Mutexes.Component (Client T) (Action T) (Owner T) Mutex Handler Method where
  init := activated registered
  step := step
  actor := Action.owner
  owner s _ := s.connectedMux
  running
    | s, .library => s.library.running
    | _, .thread _ => none
  locks := Method.locks

theorem consistent_of_reaches {registered : Handler → Bool}
    (h : (component registered).Reaches s) : s.Consistent :=
  h.invariant Consistent (consistent_activated registered) fun _ _ _ hs _ hstep =>
    consistent_step hs hstep

theorem callsUnder (registered : Handler → Bool) :
    (component (T := T) registered).CallsUnder fun _ => .connectedMux where
  owner_iff s hs o handler hrunning m := by
    cases o with
    | thread t => cases hrunning
    | library =>
        refine iff_of_true ?_ rfl
        exact (consistent_of_reaches hs .library).mpr (LibraryPc.holdsMux_of_running hrunning)
  keeps s a s' o m hs hstep hother howner := by
    have h := consistent_of_reaches hs
    have hheld : s'.holdsMux o = true := holdsMux_of_step hstep hother ((h o).mp howner)
    exact (consistent_step h hstep o).mpr hheld
  locked _ := ⟨.close, List.mem_singleton_self _⟩

theorem exists_running {handler : Handler} (h : handler = .open ∨ handler = .close) : ∃ s,
    (component (T := Unit) fun _ => true).Reaches s ∧ s.library.running = some handler := by
  obtain rfl | rfl := h
  · refine Runs.exists_reachable
      [.connect () (some 0), .resume (), .resume (), .succeeds 0, .callback 0, .library] ?_
    exact ⟨_, Option.get_mem (by decide +kernel), by decide +kernel⟩
  · refine Runs.exists_reachable
      [.connect () (some 0), .resume (), .resume (), .succeeds 0, .callback 0, .library, .library,
        .ends 0, .callback 0, .library] ?_
    exact ⟨_, Option.get_mem (by decide +kernel), by decide +kernel⟩

end Client

end Shapeware.WebsocketClient
