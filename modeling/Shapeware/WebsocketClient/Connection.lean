import Shapeware.WebsocketClient.Client

/-!
# One flag for many connections

`m_connected` and `m_connection_hdl` stand for one connection, while the events of earlier ones can
still come. The two are right as long as no attempt is made while another one is being set up, and no
connection ends, as far as the service is told, while a later one is open.
-/

namespace Shapeware.WebsocketClient

/-- The callbacks that can be left in each state. -/
def Session.lawful : List Session :=
  [⟨.connecting, []⟩, ⟨.open, [.open]⟩, ⟨.open, []⟩, ⟨.closing, []⟩, ⟨.closed, [.fail]⟩,
    ⟨.closed, [.open, .close]⟩, ⟨.closed, [.close]⟩, ⟨.closed, []⟩]

namespace Client

variable {T : Type} {s s' : Client T} {a : Action T} {hdl hdl' : Nat}

/-- The connection is still connecting, or `on_open` has not yet run for it. -/
def InSetup (s : Client T) (hdl : Nat) : Prop :=
  s.state hdl = some .connecting ∨ .open ∈ s.owed hdl ∨ s.library = .onOpen hdl

/-- All that happened to the connection has been handled. -/
def NothingPending (s : Client T) (hdl : Nat) : Prop :=
  s.owed hdl = [] ∧ s.state hdl ≠ some .closing ∧ s.library ≠ .onOpen hdl ∧
    s.library ≠ .onFail hdl ∧ s.library ≠ .onClose hdl

/-- `isConnected` tells whether the connection is open that `m_connection_hdl` refers to. -/
def Agrees (s : Client T) : Prop :=
  ∀ hdl, s.imp.connectionHdl = some hdl → s.NothingPending hdl →
    (s.isConnected = true ↔ s.state hdl = some .open)

/-- The step starts a connection while one is open. -/
def StartsSecond (s s' : Client T) : Prop :=
  (∃ hdl, s.sessions hdl = none ∧ s'.sessions hdl ≠ none) ∧ ∃ hdl, s.state hdl = some .open

/-- An event of another connection does not change what `isConnected` says of the current one. -/
def KeepsCurrent (s : Client T) (a : Action T) (s' : Client T) : Prop :=
  ∀ hdl hdl', a = .library →
    s.library = .onOpen hdl ∨ s.library = .onFail hdl ∨ s.library = .onClose hdl →
    s.imp.connectionHdl = some hdl' → hdl' ≠ hdl → s.NothingPending hdl' →
      s'.isConnected = s.isConnected

/-- `connect` starts no connection while another one is being set up. -/
def OneAtATime (s : Client T) (a : Action T) : Prop :=
  ∀ t hdl, a = .connect t (some hdl) → s.imp.connected = false → ∀ hdl', ¬ s.InSetup hdl'

/-- No fail or close event is handled while `m_connection_hdl` refers to another connection that is
open. -/
def NoLateEvent (s : Client T) (a : Action T) : Prop :=
  ∀ hdl hdl', a = .library → s.library = .onFail hdl ∨ s.library = .onClose hdl →
    s.imp.connectionHdl = some hdl' → hdl' ≠ hdl → s.state hdl' ≠ some .open

/-! ### The order of the events of one connection -/

/-- The connection was opened, and its close callback was not yet made. -/
def NotOver (s : Client T) (hdl : Nat) : Prop :=
  s.state hdl = some .open ∨ s.state hdl = some .closing ∨
    s.state hdl = some .closed ∧ .close ∈ s.owed hdl

structure Ordered (s : Client T) : Prop where
  lawful : ∀ hdl session, s.sessions hdl = some session → session ∈ Session.lawful
  handle : ∀ hdl, s.imp.connectionHdl = some hdl → .open ∉ s.owed hdl ∧ .fail ∉ s.owed hdl ∧
    ∃ state, s.state hdl = some state ∧ state ≠ .connecting
  opening : ∀ hdl, s.library = .onOpen hdl → s.imp.connectionHdl = some hdl ∧ s.NotOver hdl
  ending : ∀ hdl, s.library = .onFail hdl ∨ s.library = .onClose hdl →
    s.state hdl = some .closed ∧ s.owed hdl = []

namespace Ordered

theorem activated {registered : Handler → Bool} : Ordered (activated registered : Client T) where
  lawful := by simp [Client.activated]
  handle := by simp [Client.activated]
  opening := by simp [Client.activated]
  ending := by simp [Client.activated]

theorem same (h : s.Ordered) (hsessions : s'.sessions = s.sessions)
    (hhandle : s'.imp.connectionHdl = s.imp.connectionHdl)
    (hlibrary : s'.library = s.library ∨ s'.library.waits = false) : s'.Ordered := by
  have hstate := state_of_sessions hsessions
  have howed := owed_of_sessions hsessions
  refine ⟨hsessions ▸ h.lawful, fun hdl => ?_, fun hdl hopening => ?_, fun hdl hending => ?_⟩
  · rw [hhandle, hstate, howed]
    exact h.handle hdl
  · obtain heq | hnone := hlibrary
    · rw [NotOver, hhandle, hstate, howed]
      exact h.opening hdl (heq ▸ hopening)
    · simp [hopening, LibraryPc.waits] at hnone
  · obtain heq | hnone := hlibrary
    · rw [hstate, howed]
      exact h.ending hdl (heq ▸ hending)
    · obtain heq | heq := hending <;> simp [heq, LibraryPc.waits] at hnone

theorem becomes (h : s.Ordered) {state : SessionState} {owed : List Callback}
    (hlawful : ⟨state, owed⟩ ∈ Session.lawful)
    (hhandle : s.imp.connectionHdl = some hdl →
      .open ∉ owed ∧ .fail ∉ owed ∧ state ≠ .connecting)
    (hopening : s.library = .onOpen hdl →
      state = .open ∨ state = .closing ∨ state = .closed ∧ .close ∈ owed)
    (hending : s.library ≠ .onFail hdl ∧ s.library ≠ .onClose hdl) :
    (s.becomes hdl state owed).Ordered := by
  refine ⟨fun hdl' session hsession => ?_, fun hdl' hhdl => ?_, fun hdl' hlibrary => ?_,
    fun hdl' hlibrary => ?_⟩
  · by_cases heq : hdl' = hdl
    · obtain rfl : ⟨state, owed⟩ = session := by simpa [Client.becomes, heq] using hsession
      exact hlawful
    · exact h.lawful hdl' session (by simpa [Client.becomes, heq] using hsession)
  · by_cases heq : hdl' = hdl
    · subst heq
      simpa [and_assoc] using hhandle hhdl
    · simpa [heq] using h.handle hdl' hhdl
  · refine ⟨(h.opening hdl' hlibrary).1, ?_⟩
    by_cases heq : hdl' = hdl
    · subst heq
      simpa [NotOver] using hopening hlibrary
    · simpa [NotOver, heq] using (h.opening hdl' hlibrary).2
  · have hne : hdl' ≠ hdl := by
      rintro rfl
      exact absurd hlibrary (not_or.mpr hending)
    simpa [hne] using h.ending hdl' hlibrary

/-- What is left when a callback is made. -/
theorem lawful_tail {state : SessionState} {cb : Callback} {owed : List Callback}
    (h : ⟨state, cb :: owed⟩ ∈ Session.lawful) : ⟨state, owed⟩ ∈ Session.lawful ∧
      .open ∉ owed ∧ .fail ∉ owed ∧ state ≠ .connecting ∧
      (cb = .open → state = .open ∨ state = .closed ∧ .close ∈ owed) ∧
      (cb ≠ .open → state = .closed ∧ owed = []) := by
  simp only [Session.lawful, List.mem_cons, Session.mk.injEq, reduceCtorEq, and_false,
    List.cons.injEq, false_or, List.not_mem_nil, or_false] at h
  obtain ⟨rfl, rfl, rfl⟩ | ⟨rfl, rfl, rfl⟩ | ⟨rfl, rfl, rfl⟩ | ⟨rfl, rfl, rfl⟩ := h <;>
    simp [Session.lawful]

theorem begins (h : s.Ordered) {state : SessionState} {cb : Callback} {owed : List Callback}
    (hlibrary : s.library = .run) (hsession : s.sessions hdl = some ⟨state, cb :: owed⟩) :
    ((s.becomes hdl state owed).begins hdl cb).Ordered := by
  obtain ⟨hlawful, hopen, hfail, hconnecting, hcbOpen, hcbOther⟩ :=
    lawful_tail (h.lawful hdl _ hsession)
  have hafter : (s.becomes hdl state owed).Ordered :=
    h.becomes hlawful (fun _ => ⟨hopen, hfail, hconnecting⟩) (by simp [hlibrary]) (by simp [hlibrary])
  cases cb with
  | «open» =>
      refine ⟨hafter.lawful, fun hdl' heq => ?_, fun hdl' heq => ?_, by simp [Client.begins]⟩
      · obtain rfl : hdl = hdl' := by simpa [Client.begins] using heq
        simpa [and_assoc] using ⟨hopen, hfail, hconnecting⟩
      · obtain rfl : hdl = hdl' := by simpa [Client.begins] using heq
        refine ⟨rfl, ?_⟩
        obtain rfl | ⟨rfl, hclose⟩ := hcbOpen rfl
        · exact .inl (by simp)
        · exact .inr (.inr (by simpa using hclose))
  | fail | close =>
      obtain ⟨rfl, rfl⟩ := hcbOther (by simp)
      refine ⟨hafter.lawful, hafter.handle, by simp [Client.begins], fun hdl' heq => ?_⟩
      obtain rfl : hdl = hdl' := by simpa [Client.begins] using heq
      simp

theorem not_ending (h : s.Ordered) (hstate : s.state hdl ≠ some .closed) :
    s.library ≠ .onFail hdl ∧ s.library ≠ .onClose hdl :=
  ⟨fun hlibrary => hstate (h.ending hdl (.inl hlibrary)).1,
    fun hlibrary => hstate (h.ending hdl (.inr hlibrary)).1⟩

/-- A connection that is new, or still connecting, is not the current one. -/
theorem not_current (h : s.Ordered) (hstate : s.state hdl = none ∨ s.state hdl = some .connecting) :
    s.imp.connectionHdl ≠ some hdl ∧ s.library ≠ .onOpen hdl := by
  have hhandle : s.imp.connectionHdl ≠ some hdl := by
    intro hhdl
    obtain ⟨-, -, state, hsome, hconnecting⟩ := h.handle hdl hhdl
    obtain hnone | heq := hstate
    · simp [hnone] at hsome
    · exact hconnecting (Option.some.inj (hsome.symm.trans heq))
  exact ⟨hhandle, fun hlibrary => hhandle (h.opening hdl hlibrary).1⟩

/-- Nothing is left to be told of the current connection while it is open. -/
theorem owed_of_open (h : s.Ordered) {owed : List Callback} (hhdl : s.imp.connectionHdl = some hdl)
    (hsession : s.sessions hdl = some ⟨.open, owed⟩) : owed = [] := by
  have hnotOpen : .open ∉ owed := by
    simpa [owed_of_session hsession] using (h.handle hdl hhdl).1
  have hlawful := h.lawful hdl _ hsession
  simp only [Session.lawful, List.mem_cons, Session.mk.injEq, reduceCtorEq, false_and, true_and,
    false_or, List.not_mem_nil, or_false] at hlawful
  obtain rfl | rfl := hlawful
  · simp at hnotOpen
  · rfl

theorem closesSession (h : s.Ordered) : s.closesSession.Ordered := by
  obtain heq | ⟨hdl, owed, hhdl, hsession, heq⟩ := s.closesSession_cases
  · rwa [heq]
  · obtain rfl := h.owed_of_open hhdl hsession
    rw [heq]
    exact h.becomes (by simp [Session.lawful]) (by simp) (by simp)
      (h.not_ending (by simp [state_of_session hsession]))

theorem connecting (h : s.Ordered) {owed : List Callback}
    (hsession : s.sessions hdl = some ⟨.connecting, owed⟩) : owed = [] := by
  simpa [Session.lawful] using h.lawful hdl _ hsession

theorem ends (h : s.Ordered) {state : SessionState} {owed : List Callback}
    (hstate : state = .open ∨ state = .closing) (hsession : s.sessions hdl = some ⟨state, owed⟩) :
    (s.becomes hdl .closed (owed ++ [.close])).Ordered := by
  have hlawful := h.lawful hdl _ hsession
  have howed : owed = [.open] ∨ owed = [] := by
    obtain rfl | rfl := hstate <;> simp [Session.lawful] at hlawful <;> simp [hlawful]
  refine h.becomes ?_ (fun hhdl => ?_) (by simp) (h.not_ending ?_)
  · obtain rfl | rfl := howed <;> simp [Session.lawful]
  · have hcurrent := h.handle hdl hhdl
    rw [owed_of_session hsession] at hcurrent
    simpa using ⟨hcurrent.1, hcurrent.2.1⟩
  · rw [state_of_session hsession]
    obtain rfl | rfl := hstate <;> simp

theorem step [DecidableEq T] (h : s.Ordered) (hstep : s.step a = some s') : s'.Ordered := by
  cases step_cases hstep with
  | @connects t hdl hlock hconnected hnew =>
      have hstate : s.state hdl = none := by simp [state, hnew]
      obtain ⟨hhdl, hlibrary⟩ := h.not_current (.inl hstate)
      have hafter : (s.becomes hdl .connecting []).Ordered :=
        h.becomes (by simp [Session.lawful]) (fun heq => absurd heq hhdl)
          (fun heq => absurd heq hlibrary) (h.not_ending (by simp [hstate]))
      exact hafter.same rfl rfl (.inl rfl)
  | closes => exact h.closesSession.same rfl rfl (.inl rfl)
  | succeeds hsession | fails hsession =>
      obtain ⟨hhdl, hlibrary⟩ := h.not_current (.inr (state_of_session hsession))
      obtain rfl := h.connecting hsession
      exact h.becomes (by simp [Session.lawful]) (fun heq => absurd heq hhdl)
        (fun heq => absurd heq hlibrary) (h.not_ending (by simp [state_of_session hsession]))
  | ends hstate hsession => exact h.ends hstate hsession
  | begins hlibrary hsession => exact h.begins hlibrary hsession
  | opens | closed => exact h.same (by simp) (by simp) (.inr (calls_waits _ _ _ rfl))
  | failed | handled => exact h.same rfl rfl (.inr rfl)
  | connectsNot => exact h
  | blocks | returns | sleeps | retests | wakes | registers => exact h.same rfl rfl (.inl rfl)

end Ordered

/-! ### The current connection -/

/-- The connection that `m_connection_hdl` refers to is the only one there is, up to those that have
ended, and `m_connected` tells of it. -/
structure OnlyOne (s : Client T) : Prop where
  connected : ∀ hdl, s.imp.connectionHdl = some hdl → s.state hdl = some .open →
    s.library ≠ .onOpen hdl → s.imp.connected = true
  notOver : s.imp.connected = true → ∃ hdl, s.imp.connectionHdl = some hdl ∧
    (s.NotOver hdl ∨ s.library = .onClose hdl)
  current : ∀ hdl, s.state hdl = some .open → ¬ s.InSetup hdl → s.imp.connectionHdl = some hdl
  alone : ∀ hdl hdl', s.InSetup hdl → hdl' ≠ hdl → ¬ s.InSetup hdl' ∧ s.state hdl' ≠ some .open

namespace OnlyOne

theorem agrees (h : s.OnlyOne) : s.Agrees := by
  rintro hdl hhdl ⟨howed, hclosing, hopening, -, hending⟩
  refine ⟨fun hconnected => ?_, fun hopen => h.connected hdl hhdl hopen hopening⟩
  obtain ⟨hdl', hhdl', hnotOver⟩ := h.notOver hconnected
  obtain rfl := Option.some.inj (hhdl.symm.trans hhdl')
  obtain (hopen | hstate | ⟨-, hclose⟩) | hlibrary := hnotOver
  · exact hopen
  · exact absurd hstate hclosing
  · simp [howed] at hclose
  · exact absurd hlibrary hending

theorem none_open (h : s.OnlyOne) (hconnected : s.imp.connected = false)
    (hsetup : ∀ hdl, ¬ s.InSetup hdl) (hdl : Nat) : s.state hdl ≠ some .open := by
  intro hopen
  have hnotOpening : s.library ≠ .onOpen hdl := fun heq => hsetup hdl (.inr (.inr heq))
  have hnow := h.connected hdl (h.current hdl hopen (hsetup hdl)) hopen hnotOpening
  exact absurd (hconnected.symm.trans hnow) (by simp)

theorem activated {registered : Handler → Bool} : OnlyOne (activated registered : Client T) where
  connected := by simp [Client.activated]
  notOver := by simp [Client.activated]
  current := by simp [Client.activated, Client.state]
  alone := by simp [Client.activated, Client.state, Client.owed, InSetup]

theorem of_fewer (h : s.OnlyOne) (hhandle : s'.imp.connectionHdl = s.imp.connectionHdl)
    (hsetup : ∀ hdl, s'.InSetup hdl → s.InSetup hdl)
    (hopen : ∀ hdl, s'.state hdl = some .open → s.state hdl = some .open ∧
      (s.InSetup hdl → s'.InSetup hdl ∨ s.imp.connectionHdl = some hdl))
    (hconnected : ∀ hdl, s.imp.connectionHdl = some hdl → s'.state hdl = some .open →
      s'.library ≠ .onOpen hdl → s'.imp.connected = true)
    (hnotOver : s'.imp.connected = true → ∃ hdl, s.imp.connectionHdl = some hdl ∧
      (s'.NotOver hdl ∨ s'.library = .onClose hdl)) : s'.OnlyOne where
  connected hdl hhdl := hconnected hdl (hhandle ▸ hhdl)
  notOver := by
    rw [hhandle]
    exact hnotOver
  current hdl hstate hdone := by
    rw [hhandle]
    by_cases hbefore : s.InSetup hdl
    · exact ((hopen hdl hstate).2 hbefore).resolve_left hdone
    · exact h.current hdl (hopen hdl hstate).1 hbefore
  alone hdl hdl' hin hne :=
    ⟨fun hin' => (h.alone hdl hdl' (hsetup hdl hin) hne).1 (hsetup hdl' hin'),
      fun hstate => (h.alone hdl hdl' (hsetup hdl hin) hne).2 (hopen hdl' hstate).1⟩

theorem same (h : s.OnlyOne) (hsessions : s'.sessions = s.sessions)
    (hhandle : s'.imp.connectionHdl = s.imp.connectionHdl)
    (hconnected : s'.imp.connected = s.imp.connected)
    (hlibrary : s'.library = s.library ∨ s.library.waits = false ∧ s'.library.waits = false) :
    s'.OnlyOne := by
  have hstate := state_of_sessions hsessions
  have howed := owed_of_sessions hsessions
  have hopening (hdl : Nat) : s'.library = .onOpen hdl ↔ s.library = .onOpen hdl := by
    obtain heq | ⟨hbefore, hafter⟩ := hlibrary
    · rw [heq]
    · constructor <;> intro heq <;> simp_all [LibraryPc.waits]
  have hsetup (hdl : Nat) : s'.InSetup hdl ↔ s.InSetup hdl := by
    rw [InSetup, InSetup, hstate, howed, hopening]
  refine h.of_fewer hhandle (fun hdl => (hsetup hdl).mp) (fun hdl hopen => ?_)
    (fun hdl hhdl hopen hnot => ?_) fun hnow => ?_
  · exact ⟨hstate hdl ▸ hopen, fun hbefore => .inl ((hsetup hdl).mpr hbefore)⟩
  · rw [hconnected]
    exact h.connected hdl hhdl (hstate hdl ▸ hopen) fun heq => hnot ((hopening hdl).mpr heq)
  · obtain ⟨hdl, hhdl, hnotOver⟩ := h.notOver (hconnected ▸ hnow)
    refine ⟨hdl, hhdl, ?_⟩
    rw [NotOver, hstate, howed]
    refine hnotOver.imp_right fun heq => ?_
    obtain hsame | ⟨hbefore, -⟩ := hlibrary
    · exact hsame.trans heq
    · simp [heq, LibraryPc.waits] at hbefore

theorem setsUp (h : s.OnlyOne) {state : SessionState} {owed : List Callback}
    (hhandle : s.imp.connectionHdl ≠ some hdl)
    (hin : state = .connecting ∨ .open ∈ owed)
    (halone : ∀ hdl', hdl' ≠ hdl → ¬ s.InSetup hdl' ∧ s.state hdl' ≠ some .open) :
    (s.becomes hdl state owed).OnlyOne where
  connected hdl' hhdl hopen hnot := by
    have hne : hdl' ≠ hdl := fun heq => hhandle (heq ▸ hhdl)
    exact h.connected hdl' hhdl (by simpa [hne] using hopen) hnot
  notOver hconnected := by
    obtain ⟨hdl', hhdl, hnotOver⟩ := h.notOver hconnected
    have hne : hdl' ≠ hdl := fun heq => hhandle (heq ▸ hhdl)
    exact ⟨hdl', hhdl, by simpa [NotOver, hne] using hnotOver⟩
  current hdl' hopen hdone := by
    by_cases hne : hdl' = hdl
    · subst hne
      refine absurd ?_ hdone
      obtain rfl | howed := hin
      · exact .inl (by simp)
      · exact .inr (.inl (by simpa using howed))
    · exact absurd (by simpa [hne] using hopen) (halone hdl' hne).2
  alone hdl₁ hdl₂ hin₁ hne := by
    have honly (hdl' : Nat) (hne : hdl' ≠ hdl) : ¬ (s.becomes hdl state owed).InSetup hdl' := by
      simpa [InSetup, hne] using (halone hdl' hne).1
    have heq : hdl₁ = hdl := by
      by_contra hother
      exact honly hdl₁ hother hin₁
    subst heq
    exact ⟨honly hdl₂ hne, by simpa [hne] using (halone hdl₂ hne).2⟩

theorem comesDown (h : s.OnlyOne) {state : SessionState} {owed : List Callback}
    (hsessions : s'.sessions = (s.becomes hdl state owed).sessions)
    (hhandle : s'.imp.connectionHdl = s.imp.connectionHdl)
    (hconnected : s'.imp.connected = s.imp.connected)
    (hlibrary : s'.library = s.library ∨ s.library = .run ∧ ∀ hdl, s'.library ≠ .onOpen hdl)
    (hstate : state ≠ .connecting ∧ state ≠ .open) (hin : .open ∈ owed → .open ∈ s.owed hdl)
    (hnotOver : s.imp.connectionHdl = some hdl →
      state = .closing ∨ state = .closed ∧ .close ∈ owed ∨ s'.library = .onClose hdl) :
    s'.OnlyOne := by
  have hstate' (hdl' : Nat) : s'.state hdl' = if hdl' = hdl then some state else s.state hdl' := by
    rw [state_of_sessions hsessions, becomes_state]
  have howed' (hdl' : Nat) : s'.owed hdl' = if hdl' = hdl then owed else s.owed hdl' := by
    rw [owed_of_sessions hsessions, becomes_owed]
  have hopening (hdl' : Nat) : s'.library = .onOpen hdl' ↔ s.library = .onOpen hdl' := by
    obtain heq | ⟨hrun, hnone⟩ := hlibrary
    · rw [heq]
    · simp [hrun, hnone hdl']
  have hother {hdl' : Nat} (hopen : s'.state hdl' = some .open) : hdl' ≠ hdl := by
    rintro rfl
    exact hstate.2 (by simpa [hstate'] using hopen)
  refine h.of_fewer hhandle (fun hdl' hsetup => ?_) (fun hdl' hopen => ?_)
    (fun hdl' hhdl hopen hnot => ?_) fun hnow => ?_
  · rw [InSetup, hstate', howed', hopening] at hsetup
    by_cases hne : hdl' = hdl
    · subst hne
      obtain hconnecting | howed | hlibrary := hsetup
      · exact absurd (by simpa using hconnecting) hstate.1
      · exact .inr (.inl (hin (by simpa using howed)))
      · exact .inr (.inr hlibrary)
    · simpa [InSetup, hne] using hsetup
  · have hne := hother hopen
    refine ⟨by simpa [hstate', hne] using hopen, fun hsetup => .inl ?_⟩
    rw [InSetup, hstate', howed', hopening]
    simpa [InSetup, hne] using hsetup
  · have hne := hother hopen
    rw [hconnected]
    exact h.connected hdl' hhdl (by simpa [hstate', hne] using hopen)
      fun heq => hnot ((hopening hdl').mpr heq)
  · obtain ⟨hdl', hhdl, hbefore⟩ := h.notOver (hconnected ▸ hnow)
    refine ⟨hdl', hhdl, ?_⟩
    rw [NotOver, hstate', howed']
    by_cases hne : hdl' = hdl
    · subst hne
      obtain rfl | hclosed | hclose := hnotOver hhdl
      · simp
      · simp [hclosed]
      · exact .inr hclose
    · obtain hbefore | hclose := hbefore
      · simpa [hne] using .inl hbefore
      · obtain heq | ⟨hrun, -⟩ := hlibrary
        · exact .inr (heq.trans hclose)
        · simp [hrun] at hclose

theorem unsets (h : s.OnlyOne) (hsessions : s'.sessions = s.sessions)
    (hhandle : s'.imp.connectionHdl = s.imp.connectionHdl) (hconnected : s'.imp.connected = false)
    (hlibrary : ∀ hdl, s'.library = .onOpen hdl ↔ s.library = .onOpen hdl)
    (hclosed : ∀ hdl, s.imp.connectionHdl = some hdl → s.state hdl ≠ some .open) :
    s'.OnlyOne := by
  have hstate := state_of_sessions hsessions
  have hsetup (hdl : Nat) : s'.InSetup hdl ↔ s.InSetup hdl := by
    rw [InSetup, InSetup, hstate, owed_of_sessions hsessions, hlibrary]
  refine h.of_fewer hhandle (fun hdl => (hsetup hdl).mp) (fun hdl hopen => ?_)
    (fun hdl hhdl hopen => ?_) fun hnow => ?_
  · exact ⟨hstate hdl ▸ hopen, fun hbefore => .inl ((hsetup hdl).mpr hbefore)⟩
  · exact absurd (hstate hdl ▸ hopen) (hclosed hdl hhdl)
  · exact absurd (hconnected.symm.trans hnow) (by simp)

/-- `on_open` takes its connection for the current one. -/
theorem begins_open (h : s.OnlyOne) {state : SessionState} {owed : List Callback}
    (hafter : ((s.becomes hdl state owed).begins hdl .open).Ordered)
    (hsession : s.sessions hdl = some ⟨state, .open :: owed⟩) :
    ((s.becomes hdl state owed).begins hdl .open).OnlyOne := by
  have hin : s.InSetup hdl := .inr (.inl (by simp [owed_of_session hsession]))
  have halone := h.alone hdl
  have honly {hdl' : Nat} (hne : hdl' ≠ hdl)
      (hsetup : ((s.becomes hdl state owed).begins hdl .open).InSetup hdl') : s.InSetup hdl' := by
    obtain hconnecting | howed | hlibrary := hsetup
    · exact .inl (by simpa [hne] using hconnecting)
    · exact .inr (.inl (by simpa [hne] using howed))
    · exact absurd (by simpa [Client.begins] using hlibrary : hdl = hdl').symm hne
  refine ⟨fun hdl' hhdl _ hnot => ?_, fun _ => ?_, fun hdl' hopen hdone => ?_,
    fun hdl₁ hdl₂ hin₁ hne => ?_⟩
  · obtain rfl : hdl = hdl' := by simpa [Client.begins] using hhdl
    exact absurd rfl hnot
  · exact ⟨hdl, rfl, .inl (hafter.opening hdl rfl).2⟩
  · by_cases hne : hdl' = hdl
    · exact hne ▸ rfl
    · exact absurd (by simpa [hne] using hopen) (halone hdl' hin hne).2
  · have heq : hdl₁ = hdl := by
      by_contra hother
      exact (halone hdl₁ hin hother).1 (honly hother hin₁)
    subst heq
    exact ⟨fun hsetup => (halone hdl₂ hin hne).1 (honly hne hsetup),
      by simpa [hne] using (halone hdl₂ hin hne).2⟩

theorem opens (h : s.OnlyOne) (horder : s.Ordered) (hlibrary : s.library = .onOpen hdl) :
    ((s.sets true (.opened hdl)).calls .open (.openHandler hdl)).OnlyOne := by
  obtain ⟨hhdl, hnotOver⟩ := horder.opening hdl hlibrary
  have hafter := calls_waits (s.sets true (.opened hdl)) .open (.openHandler hdl) rfl
  refine h.of_fewer (by simp) (fun hdl' hsetup => ?_) (fun hdl' hopen => ?_) (by simp) fun _ => ?_
  · obtain hconnecting | howed | hopening := hsetup
    · exact .inl (by simpa using hconnecting)
    · exact .inr (.inl (by simpa using howed))
    · simp [hopening, LibraryPc.waits] at hafter
  · refine ⟨by simpa using hopen, ?_⟩
    rintro (hconnecting | howed | hopening)
    · exact .inl (.inl (by simpa using hconnecting))
    · exact .inl (.inr (.inl (by simpa using howed)))
    · obtain rfl : hdl = hdl' := by simpa [hlibrary] using hopening
      exact .inr hhdl
  · exact ⟨hdl, hhdl, .inl (by simpa [NotOver] using hnotOver)⟩

/-- `on_fail` or `on_close` is through with a connection that is not open. -/
theorem told_end (h : s.OnlyOne) (horder : s.Ordered)
    (hlibrary : s.library = .onFail hdl ∨ s.library = .onClose hdl)
    (hlate : s.NoLateEvent .library) (hsessions : s'.sessions = s.sessions)
    (hhandle : s'.imp.connectionHdl = s.imp.connectionHdl) (hconnected : s'.imp.connected = false)
    (hwaits : s'.library.waits = false) : s'.OnlyOne := by
  refine h.unsets hsessions hhandle hconnected (fun hdl' => ?_) fun hdl' hhdl => ?_
  · constructor
    · intro heq
      simp [heq, LibraryPc.waits] at hwaits
    · intro heq
      simp [heq] at hlibrary
  · by_cases hne : hdl' = hdl
    · rw [hne, (horder.ending hdl hlibrary).1]
      simp
    · exact hlate hdl hdl' rfl hlibrary hhdl hne

theorem step [DecidableEq T] (h : s.OnlyOne) (horder : s.Ordered) (hone : s.OneAtATime a)
    (hlate : s.NoLateEvent a) (hstep : s.step a = some s') : s'.OnlyOne := by
  have hafter := horder.step hstep
  cases step_cases hstep with
  | @connects t hdl hlock hconnected hnew =>
      have hsetup := hone t hdl rfl hconnected
      have hstate : s.state hdl = none := by simp [state, hnew]
      have hset : (s.becomes hdl .connecting []).OnlyOne :=
        h.setsUp (horder.not_current (.inl hstate)).1 (.inl rfl)
          fun hdl' _ => ⟨hsetup hdl', h.none_open hconnected hsetup hdl'⟩
      exact hset.same rfl rfl rfl (.inl rfl)
  | closes =>
      have hclosed : s.closesSession.OnlyOne := by
        obtain heq | ⟨hdl, owed, hhdl, hsession, heq⟩ := s.closesSession_cases
        · rwa [heq]
        · rw [heq]
          exact h.comesDown rfl rfl rfl (.inl rfl) (by simp)
            (fun hin => by simpa [owed_of_session hsession] using hin) (by simp)
      exact hclosed.unsets rfl rfl rfl (fun _ => Iff.rfl) fun hdl hhdl =>
        closesSession_state (by simpa using hhdl)
  | @succeeds hdl owed hsession =>
      have hin : s.InSetup hdl := .inl (state_of_session hsession)
      exact h.setsUp (horder.not_current (.inr (state_of_session hsession))).1 (.inr (by simp))
        fun hdl' hne => h.alone hdl hdl' hin hne
  | @fails hdl owed hsession =>
      obtain rfl := horder.connecting hsession
      have hhandle := (horder.not_current (.inr (state_of_session hsession))).1
      exact h.comesDown rfl rfl rfl (.inl rfl) (by simp) (by simp) fun heq => absurd heq hhandle
  | @ends hdl state owed hstate hsession =>
      exact h.comesDown rfl rfl rfl (.inl rfl) (by simp)
        (fun hin => by simpa [owed_of_session hsession] using hin) (by simp)
  | @begins hdl state cb owed hlibrary hsession =>
      obtain ⟨-, -, -, -, -, hother⟩ := Ordered.lawful_tail (horder.lawful hdl _ hsession)
      cases cb with
      | «open» => exact h.begins_open hafter hsession
      | fail =>
          obtain ⟨rfl, rfl⟩ := hother (by simp)
          refine h.comesDown (begins_sessions _ hdl .fail) rfl rfl
            (.inr ⟨hlibrary, by simp [Client.begins]⟩) (by simp) (by simp) fun hhdl => ?_
          have hfail := (horder.handle hdl hhdl).2.1
          simp [owed_of_session hsession] at hfail
      | close =>
          obtain ⟨rfl, rfl⟩ := hother (by simp)
          exact h.comesDown (begins_sessions _ hdl .close) rfl rfl
            (.inr ⟨hlibrary, by simp [Client.begins]⟩) (by simp) (by simp)
            fun _ => .inr (.inr rfl)
  | opens hlibrary => exact h.opens horder hlibrary
  | failed hlibrary => exact h.told_end horder (.inl hlibrary) hlate rfl rfl rfl rfl
  | closed hlibrary =>
      exact h.told_end horder (.inr hlibrary) hlate (by simp) (by simp) (by simp)
        (calls_waits _ _ _ rfl)
  | handled hlibrary =>
      refine h.same rfl rfl rfl (.inr ⟨?_, rfl⟩)
      obtain heq | heq := hlibrary <;> rw [heq] <;> rfl
  | connectsNot => exact h
  | blocks | returns | sleeps | retests | wakes | registers => exact h.same rfl rfl rfl (.inl rfl)

end OnlyOne

variable [DecidableEq T]

/-- Only `connect` starts a connection. -/
theorem connect_of_new (hstep : s.step a = some s') (hnone : s.sessions hdl = none)
    (hsome : s'.sessions hdl ≠ none) :
    ∃ t, a = .connect t (some hdl) ∧ s.imp.connected = false := by
  have hother {hdl' : Nat} {session : Session} {state : SessionState} {owed : List Callback}
      (hsession : s.sessions hdl' = some session) :
      (s.becomes hdl' state owed).sessions hdl = none := by
    have hne : hdl ≠ hdl' := by
      rintro rfl
      simp [hnone] at hsession
    simp [becomes, hne, hnone]
  cases step_cases hstep with
  | @connects t hdl' hlock hconnected =>
      have heq : hdl = hdl' := by
        by_contra hne
        exact hsome (by simp [becomes, hne, hnone])
      exact ⟨t, by rw [heq], hconnected⟩
  | closes =>
      refine absurd ?_ hsome
      obtain heq | ⟨hdl', owed, -, hsession, heq⟩ := s.closesSession_cases
      · rw [sets_sessions, heq, hnone]
      · rw [sets_sessions, heq, hother hsession]
  | succeeds hsession | fails hsession | ends _ hsession => exact absurd (hother hsession) hsome
  | begins _ hsession =>
      refine absurd ?_ hsome
      rw [begins_sessions, hother hsession]
  | opens | closed => exact absurd (by simpa using hnone) hsome
  | connectsNot | blocks | returns | sleeps | retests | wakes | registers | failed | handled =>
      exact absurd hnone hsome

/-- `on_fail` and `on_close` unset `m_connected`, whichever connection has ended. -/
theorem tells_end (hlibrary : s.library = .onFail hdl ∨ s.library = .onClose hdl)
    (hstep : s.step .library = some s') : s'.sessions = s.sessions ∧
      s'.imp.connectionHdl = s.imp.connectionHdl ∧ s'.imp.connected = false ∧
      s'.library.waits = false := by
  obtain hfailing | hclosing := hlibrary
  · simp only [step, works, hfailing] at hstep
    split_ifs at hstep
    cases hstep
    exact ⟨rfl, rfl, rfl, rfl⟩
  · simp only [step, works, hclosing] at hstep
    split_ifs at hstep
    cases hstep
    exact ⟨by simp, by simp, by simp, calls_waits _ _ _ rfl⟩

theorem OnlyOne.keepsCurrent (h : s.OnlyOne) (horder : s.Ordered) (hlate : s.NoLateEvent a)
    (hstep : s.step a = some s') : s.KeepsCurrent a s' := by
  rintro hdl hdl' rfl hlibrary hhdl hne hpending
  have hagrees := h.agrees hdl' hhdl hpending
  obtain hopening | hending := hlibrary
  · have hsame := (horder.opening hdl hopening).1
    exact absurd (Option.some.inj (hhdl.symm.trans hsame)) hne
  · have hclosed := hlate hdl hdl' rfl hending hhdl hne
    have hbefore : s.isConnected = false := eq_false_of_ne_true (mt hagrees.mp hclosed)
    have hafter : s'.isConnected = false := (tells_end hending hstep).2.2.1
    exact hafter.trans hbefore.symm

/-- **One connection at a time.** -/
theorem agrees_of_inTurn {registered : Handler → Bool}
    (h : Runs.Reachable step (fun s a => s.OneAtATime a ∧ s.NoLateEvent a)
      (activated registered : Client T) s) :
    s.Agrees ∧ ∀ a s', s.OneAtATime a ∧ s.NoLateEvent a → s.step a = some s' →
      ¬ s.StartsSecond s' ∧ s.KeepsCurrent a s' := by
  have hinv : s.Ordered ∧ s.OnlyOne := by
    refine h.invariant (fun s => s.Ordered ∧ s.OnlyOne) ⟨.activated, .activated⟩ ?_
    rintro s a s' ⟨horder, hinv⟩ ⟨hone, hlate⟩ hstep
    exact ⟨horder.step hstep, hinv.step horder hone hlate hstep⟩
  refine ⟨hinv.2.agrees, fun a s' hallowed hstep => ⟨?_, ?_⟩⟩
  · rintro ⟨⟨hdl, hnone, hsome⟩, hdl', hopen⟩
    obtain ⟨t, rfl, hconnected⟩ := connect_of_new hstep hnone hsome
    have hsetup := hallowed.1 t hdl rfl hconnected
    exact hinv.2.none_open hconnected hsetup hdl' hopen
  · exact hinv.2.keepsCurrent hinv.1 hallowed.2 hstep

/-- Two connections are made in turn: the second one is started when all callbacks of the first one
have been handled. -/
def InTurn (s : Client T) : Action T → Bool
  | .connect _ (some hdl) =>
    hdl < 2 && s.library == .run && [0, 1].all fun hdl' => s.state hdl' != some .connecting &&
      s.owed hdl' == []
  | .library =>
    match s.library with
    | .onFail hdl | .onClose hdl =>
      s.imp.connectionHdl.all fun hdl' => hdl' == hdl || s.state hdl' != some .open
    | _ => true
  | _ => true

theorem sessions_of_inTurn {registered : Handler → Bool}
    (h : Runs.Reachable step (fun s a => s.InTurn a = true) (activated registered : Client T) s) :
    ∀ hdl, 2 ≤ hdl → s.sessions hdl = none := by
  refine h.invariant (fun s => ∀ hdl, 2 ≤ hdl → s.sessions hdl = none) (fun _ _ => rfl) ?_
  intro s a s' hnone hinTurn hstep hdl hle
  by_contra hsome
  obtain ⟨t, rfl, -⟩ := connect_of_new hstep (hnone hdl hle) hsome
  have hlt : hdl < 2 := by
    simp only [InTurn, Bool.and_eq_true, decide_eq_true_eq] at hinTurn
    exact hinTurn.1.1
  omega

/-- The first connection is closed by the service and the second one stays. -/
theorem agrees_of_inTurn_two : ∃ s : Client Unit, s.state 0 = some .closed ∧
    s.imp.connectionHdl = some 1 ∧ s.isConnected = true ∧ s.Agrees := by
  obtain ⟨s, hs, hclosed, hhdl, hconnected⟩ : ∃ s : Client Unit,
      Runs.Reachable step (fun s a => s.InTurn a = true) (activated fun _ => true) s ∧
        s.state 0 = some .closed ∧ s.imp.connectionHdl = some 1 ∧ s.isConnected = true :=
    Runs.exists_reachable [.connect () (some 0), .succeeds 0, .resume (), .callback 0, .library,
      .library, .close (), .ends 0, .callback 0, .library, .library, .connect () (some 1),
      .succeeds 1, .resume (), .callback 1, .library, .library] (by decide +kernel)
  suffices hallowed : Runs.Reachable step (fun s a => s.OneAtATime a ∧ s.NoLateEvent a)
      (activated fun _ => true) s from ⟨s, hclosed, hhdl, hconnected, (agrees_of_inTurn hallowed).1⟩
  refine hs.invariant_of_reachable
    (Runs.Reachable step (fun s a => s.OneAtATime a ∧ s.NoLateEvent a) (activated fun _ => true)) .refl
    fun s a s' hreach hpast hinTurn hstep => hpast.tail a ⟨?_, ?_⟩ hstep
  · rintro t hdl rfl - hdl'
    simp only [InTurn, Bool.and_eq_true, beq_iff_eq, List.all_cons, List.all_nil, bne_iff_ne,
      Bool.and_true] at hinTurn
    obtain ⟨⟨-, hrun⟩, ⟨hconnecting, hnothing⟩, hconnecting', hnothing'⟩ := hinTurn
    match hdl' with
    | 0 => simp [InSetup, hconnecting, hnothing, hrun]
    | 1 => simp [InSetup, hconnecting', hnothing', hrun]
    | hdl' + 2 => simp [InSetup, state, owed, sessions_of_inTurn hreach (hdl' + 2) (by omega), hrun]
  · rintro hdl hdl' rfl hlibrary hhdl hne hopen
    obtain heq | heq := hlibrary <;> simp [InTurn, heq, hhdl, hne, hopen] at hinTurn

/-- An event that comes too late takes the current connection for closed. -/
theorem not_agrees_of_lateEvent (horder : s.Ordered) (hlate : ¬ s.NoLateEvent a)
    (hstep : s.step a = some s') : ¬ s'.Agrees := by
  simp only [NoLateEvent, not_forall, not_not] at hlate
  obtain ⟨hdl, hdl', rfl, hlibrary, hhdl, -, hopen⟩ := hlate
  have howed : s.owed hdl' = [] := by
    obtain ⟨⟨state, owed⟩, hsession, rfl⟩ := Option.map_eq_some_iff.mp hopen
    rw [owed_of_session hsession, horder.owed_of_open hhdl hsession]
  obtain ⟨hsessions, hhandle, hconnected, hwaits⟩ := tells_end hlibrary hstep
  intro hagrees
  have hpending : s'.NothingPending hdl' := by
    refine ⟨by rw [owed_of_sessions hsessions, howed],
      by simp [state_of_sessions hsessions, hopen], ?_, ?_, ?_⟩ <;> intro heq <;>
      simp [heq, LibraryPc.waits] at hwaits
  have hnow := (hagrees hdl' (hhandle.trans hhdl) hpending).mpr
    (by rw [state_of_sessions hsessions, hopen])
  exact absurd (hconnected.symm.trans hnow) (by simp)

/-- The client closes and connects again at once; the close event of the first connection comes
after the second one was opened. -/
theorem not_forall_agrees : ¬ ∀ s : Client Unit, Runs.Reachable step (fun _ _ => True)
    (activated fun _ => true) s → s.Agrees := by
  refine Runs.not_forall_reachable [.connect () (some 0), .succeeds 0, .resume (), .callback 0,
    .library, .library, .close (), .ends 0, .connect () (some 1), .succeeds 1, .resume (),
    .callback 1, .library, .library, .callback 0, .library]
    ⟨_, Option.get_mem (by decide +kernel), fun hagrees => ?_⟩
  have hiff := hagrees 1 (by decide +kernel) ⟨by decide +kernel, by decide +kernel,
    by decide +kernel, by decide +kernel, by decide +kernel⟩
  exact absurd hiff (by decide +kernel)

end Client

end Shapeware.WebsocketClient
