import Shapeware.WebsocketClient.Client

/-!
# What a return from connect says

`connect` waits for the state of its session, which changes before `on_open` sets `m_connected`. So
`connect` can return between the two, and its caller finds that the client is not connected.
-/

namespace Shapeware.WebsocketClient

/-- The value that `m_connected` gets. -/
def Event.sets : Event → Option Bool
  | .opened _ => some true
  | .failed _ | .closed _ | .close => some false
  | .returned .. => none

/-- The last value that `m_connected` got. -/
def lastSet (trace : List Event) : Option Bool := (trace.filterMap Event.sets).getLast?

/-- `connect` has returned with an open session, and after that neither `close` was called nor a close
event has arrived. -/
def connectReported (trace : List Event) : Bool :=
  trace.foldl (fun reported e =>
    match e with
    | .returned _ .open => true
    | .closed _ | .close => false
    | _ => reported) false

@[simp] theorem lastSet_append (trace : List Event) (e : Event) :
    lastSet (trace ++ [e]) = e.sets.or (lastSet trace) := by
  cases h : e.sets <;> simp [lastSet, List.filterMap_append, h]

@[simp] theorem connectReported_append (trace : List Event) (e : Event) :
    connectReported (trace ++ [e]) = match e with
      | .returned _ .open => true
      | .closed _ | .close => false
      | _ => connectReported trace := by
  simp [connectReported]

namespace Client

variable {T : Type} [DecidableEq T] {s s' : Client T} {a : Action T}

/-- The client is connected since `connect` has returned. -/
def Reports (s : Client T) : Prop := connectReported s.trace = true → s.isConnected = true

/-- A wait of `connect` ends with an open session only when `on_open` was the last to set
`m_connected`, and no attempt fails after that. -/
def OpensInTime (s : Client T) (a : Action T) : Prop :=
  (∀ t hdl, a = .resume t → s.threads t = .connect hdl .test → s.state hdl = some .open →
    lastSet s.trace = some true) ∧
  ∀ hdl, a = .library → s.library = .onFail hdl → connectReported s.trace = false

theorem connected_iff_lastSet
    (h : Runs.Reachable step (fun _ _ => True) (activated registered : Client T) s) :
    s.imp.connected = true ↔ lastSet s.trace = some true := by
  refine h.invariant (fun s : Client T => s.imp.connected = true ↔ lastSet s.trace = some true)
    (by simp [activated, lastSet]) fun s a s' hinv _ hstep => ?_
  cases step_cases hstep with
  | closes | opens | failed | closed => simp [Event.sets]
  | returns => simpa [Event.sets] using hinv
  | begins => simpa using hinv
  | connects | connectsNot | blocks | sleeps | retests | wakes | registers | succeeds | fails | ends
  | handled => exact hinv

theorem Reports.step (h : s.Reports)
    (hconnected : s.imp.connected = true ↔ lastSet s.trace = some true) (hallowed : s.OpensInTime a)
    (hstep : s.step a = some s') : s'.Reports := by
  obtain ⟨hopen, hfail⟩ := hallowed
  cases step_cases hstep with
  | closes | closed => simp [Reports]
  | opens => exact fun _ => by simp [isConnected]
  | failed hlibrary =>
      intro hreported
      exact absurd hreported (by simp [hfail _ rfl hlibrary])
  | @returns t hdl state hthread hstate =>
      intro hreported
      cases state with
      | «open» => exact hconnected.mpr (hopen t hdl rfl hthread hstate)
      | connecting | closing | closed => exact h (by simpa using hreported)
  | begins =>
      intro hreported
      simpa [isConnected] using h (by simpa using hreported)
  | connects | connectsNot | blocks | sleeps | retests | wakes | registers | succeeds | fails
  | ends | handled => exact h

/-- A wait that ends too early, or a failure that is told too late. -/
theorem not_reports_of_step (hconnected : s.imp.connected = true ↔ lastSet s.trace = some true)
    (hnot : ¬ s.OpensInTime a) (hstep : s.step a = some s') : ¬ s'.Reports := by
  simp only [OpensInTime, not_and_or, not_forall] at hnot
  obtain ⟨t, hdl, rfl, hthread, hstate, hlast⟩ | ⟨hdl, rfl, hlibrary, hreported⟩ := hnot
  · have hnotConnected : s.imp.connected = false :=
      eq_false_of_ne_true (mt hconnected.mp hlast)
    simp only [Client.step, resumes, hthread, hstate, Option.some.injEq] at hstep
    subst hstep
    intro hreports
    have hnow : s.imp.connected = true := hreports (by simp)
    exact absurd (hnotConnected.symm.trans hnow) (by simp)
  · have hstill : connectReported s.trace = true := eq_true_of_ne_false hreported
    simp only [Client.step, works, hlibrary] at hstep
    split_ifs at hstep
    cases hstep
    intro hreports
    have hnow : false = true := hreports (by simpa using hstill)
    exact absurd hnow (by simp)

/-- **Connect.** -/
theorem keeps_reports_iff {registered : Handler → Bool} :
    Runs.Keeps step (fun _ _ => True) Reports (activated registered : Client T) s ↔
      Runs.Reachable step OpensInTime (activated registered : Client T) s := by
  have hguard : Runs.Reachable step (fun s a => True ∧ s.OpensInTime a) (activated registered) s ↔
      Runs.Reachable step OpensInTime (activated registered : Client T) s :=
    ⟨fun h => h.mono fun _ _ ha => ha.2, fun h => h.mono fun _ _ ha => ⟨trivial, ha⟩⟩
  have hconnected {s : Client T}
      (h : Runs.Reachable step (fun s a => True ∧ s.OpensInTime a) (activated registered) s) :
      s.imp.connected = true ↔ lastSet s.trace = some true :=
    connected_iff_lastSet (h.mono fun _ _ _ => trivial)
  refine (Runs.keeps_iff (fun s h => ?_) fun s a s' h _ hstep hnot => ?_).trans hguard
  · exact h.invariant_of_reachable Reports (by simp [Reports, activated, connectReported])
      fun s a s' hbefore hinv hallowed hstep => hinv.step (hconnected hbefore) hallowed.2 hstep
  · exact not_reports_of_step (hconnected h) hnot hstep

/-- The handshake is over before `connect` begins to wait. -/
theorem not_forall_reports : ¬ ∀ s : Client Unit, Runs.Reachable step (fun _ _ => True)
    (activated fun _ => true) s → s.Reports :=
  Runs.not_forall_reachable [.connect () (some 0), .succeeds 0, .callback 0, .resume ()]
    ⟨_, Option.get_mem (by decide +kernel), fun h => absurd (h (by decide +kernel)) (by decide +kernel)⟩

end Client

end Shapeware.WebsocketClient
