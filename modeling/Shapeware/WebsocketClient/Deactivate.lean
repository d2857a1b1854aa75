import Shapeware.Library.Inevitably
import Shapeware.WebsocketClient.Connection
import Shapeware.WebsocketClient.Locks

/-!
# When a deactivate comes to its end

`deactivate` lets the event loop run out of work, closes the connection of `m_connection_hdl` and waits
for the library thread. The event loop has work as long as there is another connection, and one whose
handshake is under way when `deactivate` closes is not closed by anybody.
-/

namespace Shapeware.WebsocketClient

/-- Where the thread in `deactivate` is: `stop_perpetual`, `close` and `join` are its steps. -/
inductive DeactivatePc
  | active
  | close
  | join
  | done
deriving DecidableEq

/-- A client and the thread that deactivates it. -/
structure Deactivation (T : Type) where
  client : Client T
  /-- The handles of all connections, and whether the event loop has returned. -/
  handles : List Nat
  ended : Bool
  deactivate : DeactivatePc

inductive DeactivationAction (T : Type)
  | client (a : Action T)
  | runReturns
  | deactivates
deriving DecidableEq

/-- What the event loop does. -/
def Action.inRun {T : Type} : Action T → Bool
  | .succeeds _ | .fails _ | .ends _ | .callback _ | .library => true
  | .connect .. | .close _ | .resume _ | .wakes _ | .register .. => false

namespace Deactivation

variable {T : Type}

def activated (registered : Handler → Bool) : Deactivation T :=
  { client := .activated registered, handles := [], ended := false, deactivate := .active }

/-- The handle of a connection that a step starts. -/
def starts (s : Client T) : Action T → List Nat
  | .connect _ (some hdl) => if s.imp.connected then [] else [hdl]
  | .connect _ none | .close _ | .resume _ | .wakes _ | .register .. | .succeeds _ | .fails _ | .ends _
  | .callback _ | .library => []

/-- All connections are closed, and all callbacks made. -/
def OutOfWork (s : Deactivation T) : Prop :=
  s.client.library = .run ∧ ∀ hdl ∈ s.handles, s.client.sessions hdl = some ⟨.closed, []⟩

instance (s : Deactivation T) : Decidable s.OutOfWork := inferInstanceAs (Decidable (_ ∧ _))

def runReturns (s : Deactivation T) : Option (Deactivation T) :=
  if s.ended = false ∧ s.deactivate ≠ .active ∧ s.OutOfWork then some { s with ended := true }
  else none

def deactivates (s : Deactivation T) : Option (Deactivation T) :=
  match s.deactivate with
  | .active => some { s with deactivate := .close }
  | .close =>
    if s.client.connectedMux = none then
      some { s with client := s.client.closesSession.sets false .close, deactivate := .join }
    else none
  | .join => if s.ended then some { s with deactivate := .done } else none
  | .done => none

variable [DecidableEq T]

def step (s : Deactivation T) : DeactivationAction T → Option (Deactivation T)
  | .client a =>
    if s.ended ∧ a.inRun then none
    else (s.client.step a).map fun client =>
      { s with client, handles := s.handles ++ starts s.client a }
  | .runReturns => s.runReturns
  | .deactivates => s.deactivates

/-- What the steps do. -/
inductive Steps (s : Deactivation T) : DeactivationAction T → Deactivation T → Prop
  | client {a : Action T} {client : Client T} : (s.ended = true → a.inRun = false) →
      s.client.step a = some client →
      Steps s (.client a) { s with client, handles := s.handles ++ starts s.client a }
  | returns : s.ended = false → s.deactivate ≠ .active → s.OutOfWork →
      Steps s .runReturns { s with ended := true }
  | stopsPerpetual : s.deactivate = .active → Steps s .deactivates { s with deactivate := .close }
  | closes : s.deactivate = .close → s.client.connectedMux = none →
      Steps s .deactivates
        { s with client := s.client.closesSession.sets false .close, deactivate := .join }
  | joins : s.deactivate = .join → s.ended = true →
      Steps s .deactivates { s with deactivate := .done }

theorem step_cases {s s' : Deactivation T} {a : DeactivationAction T} (h : s.step a = some s') :
    s.Steps a s' := by
  cases a with
  | client a =>
      rw [step] at h
      split_ifs at h with hrefused
      obtain ⟨client, hclient, rfl⟩ := Option.map_eq_some_iff.mp h
      exact .client (by simpa using hrefused) hclient
  | runReturns =>
      rw [step, runReturns] at h
      split_ifs at h with hreturns
      cases h
      exact .returns hreturns.1 hreturns.2.1 hreturns.2.2
  | deactivates =>
      rw [step, deactivates] at h
      split at h
      case h_1 hactive =>
        cases h
        exact .stopsPerpetual hactive
      case h_2 hclose =>
        split_ifs at h with hfree
        cases h
        exact .closes hclose hfree
      case h_3 hjoin =>
        split_ifs at h with hended
        cases h
        exact .joins hjoin hended
      case h_4 => cases h

/-- `deactivate` and the library go on by themselves, with any outcome of the handshakes, and so do
the threads in `connect`. A connection that nobody has closed stays open. -/
def GoesOn (s : Deactivation T) : DeactivationAction T → Prop
  | .runReturns | .deactivates | .client (.succeeds _) | .client (.fails _) | .client (.callback _)
  | .client .library | .client (.resume _) => True
  | .client (.ends hdl) => s.client.state hdl = some .closing
  | .client (.connect ..) | .client (.close _) | .client (.wakes _) | .client (.register ..) => False

/-- No connection is open, or about to be. -/
def NothingOpen (s : Deactivation T) : Prop :=
  ∀ hdl, s.client.state hdl ≠ some .connecting ∧ s.client.state hdl ≠ some .open

/-! ### What is known in all runs -/

structure Sound (s : Deactivation T) : Prop where
  mutex : s.client.Consistent
  handles : ∀ hdl, s.client.sessions hdl ≠ none ↔ hdl ∈ s.handles
  threads : ∀ t hdl w, s.client.threads t = .connect hdl w → s.client.sessions hdl ≠ none
  finite : {t | s.client.threads t ≠ .idle}.Finite

section Client

variable {s s' : Client T} {a : Action T} {hdl : Nat}

omit [DecidableEq T] in
theorem sessions_closesSession (s : Client T) (hdl : Nat) :
    s.closesSession.sessions hdl ≠ none ↔ s.sessions hdl ≠ none := by
  obtain heq | ⟨hdl', owed, -, hsession, heq⟩ := s.closesSession_cases
  · rw [heq]
  · by_cases hhdl : hdl = hdl' <;> simp [heq, Client.becomes, hhdl, hsession]

/-- A connection is never forgotten. -/
theorem sessions_of_step (hstep : s.step a = some s') (hsome : s.sessions hdl ≠ none) :
    s'.sessions hdl ≠ none := by
  have hbecomes (hdl' : Nat) (state : SessionState) (owed : List Callback) :
      (s.becomes hdl' state owed).sessions hdl ≠ none := by
    by_cases hhdl : hdl = hdl' <;> simp [Client.becomes, hhdl, hsome]
  cases Client.step_cases hstep with
  | connects | succeeds | fails | ends => exact hbecomes _ _ _
  | closes => exact (sessions_closesSession s hdl).mpr hsome
  | begins =>
      rw [Client.begins_sessions]
      exact hbecomes _ _ _
  | opens | closed =>
      rw [Client.calls_sessions, Client.sets_sessions]
      exact hsome
  | connectsNot | blocks | returns | sleeps | retests | wakes | registers | failed | handled =>
      exact hsome

theorem sessions_of_starts (hstep : s.step a = some s') (hstarts : hdl ∈ starts s a) :
    s'.sessions hdl ≠ none := by
  cases a with
  | connect t con =>
      cases con with
      | none => cases hstarts
      | some hdl' =>
          rw [starts] at hstarts
          split_ifs at hstarts with hconnected
          · cases hstarts
          · obtain rfl := List.mem_singleton.mp hstarts
            rw [Client.step, Client.connects, if_neg hconnected] at hstep
            split_ifs at hstep
            cases hstep
            simp [Client.becomes]
  | close | resume | wakes | register | succeeds | fails | ends | callback | library => cases hstarts

theorem notified_eq_idle (pc : ThreadPc) : pc.notified = .idle ↔ pc = .idle := by
  cases pc <;> simp [ThreadPc.notified]

theorem notified_eq_connect {pc : ThreadPc} {w : Wait} (h : pc.notified = .connect hdl w) :
    ∃ w', pc = .connect hdl w' := by
  cases pc with
  | idle => cases h
  | connect hdl' w' =>
      cases h
      exact ⟨w', rfl⟩

omit [DecidableEq T] in
theorem threads_closesSession (s : Client T) : s.closesSession.threads = s.threads := by
  obtain heq | ⟨_, _, _, _, heq⟩ := s.closesSession_cases <;> rw [heq]
  rfl

omit [DecidableEq T] in
theorem threads_begins (s : Client T) (hdl : Nat) (cb : Callback) :
    (s.begins hdl cb).threads = s.threads := by
  cases cb <;> rfl

omit [DecidableEq T] in
theorem threads_calls (s : Client T) (handler : Handler) (pc : LibraryPc) :
    (s.calls handler pc).threads = s.threads := by
  rw [Client.calls]
  split <;> rfl

/-- A step moves one of the threads, or notifies all of them. -/
theorem threads_of_step (hstep : s.step a = some s') :
    s'.threads = s.threads ∨ s'.threads = (fun t => (s.threads t).notified) ∨
      ∃ t pc, s'.threads = Function.update s.threads t pc ∧
        ∀ hdl w, pc = .connect hdl w →
          (∃ w', s.threads t = .connect hdl w') ∨ s'.sessions hdl ≠ none := by
  cases Client.step_cases hstep with
  | @connects t hdl =>
      refine .inr (.inr ⟨t, _, rfl, fun hdl' w heq => .inr ?_⟩)
      obtain ⟨rfl, rfl⟩ := ThreadPc.connect.inj heq
      simp [Client.becomes]
  | @blocks t _ hthread | @sleeps t _ hthread | @retests t _ hthread =>
      refine .inr (.inr ⟨t, _, rfl, fun hdl' w heq => .inl ?_⟩)
      obtain ⟨rfl, rfl⟩ := ThreadPc.connect.inj heq
      exact ⟨_, hthread⟩
  | @returns t => exact .inr (.inr ⟨t, _, rfl, fun _ _ heq => by cases heq⟩)
  | @wakes t =>
      exact .inr (.inr ⟨t, _, rfl, fun _ _ heq => .inl (notified_eq_connect heq)⟩)
  | closes =>
      refine .inr (.inl ?_)
      simp [Client.sets, threads_closesSession]
  | opens | closed =>
      refine .inr (.inl ?_)
      simp [threads_calls, Client.sets]
  | failed => exact .inr (.inl rfl)
  | begins => exact .inl (threads_begins _ _ _)
  | connectsNot | registers | succeeds | fails | ends | handled => exact .inl rfl

omit [DecidableEq T] in
theorem finite_notified {threads : T → ThreadPc} (h : {t | threads t ≠ .idle}.Finite) :
    {t | (threads t).notified ≠ .idle}.Finite := by
  simpa [notified_eq_idle] using h

end Client

namespace Sound

variable {s s' : Deactivation T} {a : DeactivationAction T}

omit [DecidableEq T] in
theorem activated {registered : Handler → Bool} :
    Sound (Deactivation.activated registered : Deactivation T) where
  mutex := Client.consistent_activated registered
  handles hdl := by simp [Deactivation.activated, Client.activated]
  threads _ _ _ hthread := by cases hthread
  finite := by simp [Deactivation.activated, Client.activated]

theorem client (h : s.Sound) {a : Action T} {client : Client T}
    (hstep : s.client.step a = some client) :
    Sound { s with client, handles := s.handles ++ starts s.client a } where
  mutex := Client.consistent_step h.mutex hstep
  handles hdl := by
    refine ⟨fun hsome => ?_, fun hmem => ?_⟩
    · by_cases hbefore : s.client.sessions hdl = none
      · obtain ⟨t, rfl, hconnected⟩ := Client.connect_of_new hstep hbefore hsome
        simp [starts, hconnected]
      · exact List.mem_append_left _ ((h.handles hdl).mp hbefore)
    · obtain hbefore | hstarts := List.mem_append.mp hmem
      · exact sessions_of_step hstep ((h.handles hdl).mpr hbefore)
      · exact sessions_of_starts hstep hstarts
  threads t hdl w hthread := by
    have hkeeps (hbefore : ∃ w', s.client.threads t = .connect hdl w') :
        client.sessions hdl ≠ none := by
      obtain ⟨w', hw'⟩ := hbefore
      exact sessions_of_step hstep (h.threads t hdl w' hw')
    obtain hsame | hnotified | ⟨u, pc, hupdate, hpc⟩ := threads_of_step hstep
    · exact hkeeps ⟨w, hsame ▸ hthread⟩
    · exact hkeeps (notified_eq_connect (by simpa [hnotified] using hthread))
    · by_cases htu : t = u
      · subst htu
        have hpc' : pc = .connect hdl w := by simpa [hupdate] using hthread
        exact (hpc hdl w hpc').elim hkeeps id
      · exact hkeeps ⟨w, by simpa [hupdate, htu] using hthread⟩
  finite := by
    obtain hsame | hnotified | ⟨u, pc, hupdate, -⟩ := threads_of_step hstep
    · exact hsame ▸ h.finite
    · simpa [hnotified] using finite_notified h.finite
    · simpa [hupdate] using Runs.finite_update h.finite u pc

theorem step (h : s.Sound) (hstep : s.step a = some s') : s'.Sound := by
  cases step_cases hstep with
  | client _ hclient => exact h.client hclient
  | returns | stopsPerpetual | joins => exact ⟨h.mutex, h.handles, h.threads, h.finite⟩
  | closes =>
      refine ⟨h.mutex.same (by simp) fun o => by simp, ?_, ?_, ?_⟩
      · exact fun hdl => (sessions_closesSession _ hdl).trans (h.handles hdl)
      · intro t hdl w hthread
        have hthread' : (s.client.threads t).notified = .connect hdl w := by
          simpa [Client.sets, threads_closesSession] using hthread
        obtain ⟨w', hw'⟩ := notified_eq_connect hthread'
        exact (sessions_closesSession _ hdl).mpr (h.threads t hdl w' hw')
      · simpa [Client.sets, threads_closesSession] using finite_notified h.finite

/-- A thread that holds the mutex can go on. -/
theorem resumes_isSome (h : s.Sound) {t : T}
    (hholds : s.client.holdsMux (.thread t) = true) : (s.client.step (.resume t)).isSome := by
  change (s.client.threads t).holdsMux = true at hholds
  cases hthread : s.client.threads t with
  | idle => simp [hthread, ThreadPc.holdsMux] at hholds
  | connect hdl w =>
      cases w with
      | test =>
          obtain ⟨session, hsession⟩ := Option.ne_none_iff_exists'.mp (h.threads t hdl .test hthread)
          cases hstate : session.state <;>
            simp [Client.step, Client.resumes, hthread, Client.state_of_session hsession, hstate]
      | block => simp [Client.step, Client.resumes, hthread]
      | blocked | relock => simp [hthread, ThreadPc.holdsMux, Wait.holdsMux] at hholds

theorem of_reachable {registered : Handler → Bool}
    {allowed : Deactivation T → DeactivationAction T → Prop}
    (h : Runs.Reachable Deactivation.step allowed (Deactivation.activated registered) s) : s.Sound :=
  h.invariant Sound .activated fun _ _ _ hinv _ hstep => hinv.step hstep

end Sound

/-! ### What is left to do -/

/-- The end of a connection that is being closed, and what it takes to tell of it. -/
def toTell : Option Session → Nat
  | none => 0
  | some ⟨.closing, owed⟩ => 4 * owed.length + 5
  | some ⟨.connecting, owed⟩ | some ⟨.open, owed⟩ | some ⟨.closed, owed⟩ => 4 * owed.length

theorem toTell_cons (state : SessionState) (cb : Callback) (owed : List Callback) :
    toTell (some ⟨state, cb :: owed⟩) = toTell (some ⟨state, owed⟩) + 4 := by
  cases state <;> simp only [toTell, List.length_cons] <;> ring

def libraryToDo : LibraryPc → Nat
  | .run => 0
  | .openHandler _ | .closeHandler _ => 1
  | .onOpen _ | .onFail _ | .onClose _ => 2

def threadToDo : ThreadPc → Nat
  | .idle | .connect _ .blocked => 0
  | .connect _ .block => 1
  | .connect _ .test => 2
  | .connect _ .relock => 3

omit [DecidableEq T] in
theorem owed_notified (F : Finset T) (threads : T → ThreadPc) :
    Runs.owed threadToDo F (fun t => (threads t).notified) ≤
      Runs.owed threadToDo F threads + 3 * F.card := by
  have hone (pc : ThreadPc) : threadToDo pc.notified ≤ threadToDo pc + 3 := by
    cases pc with
    | idle => simp [ThreadPc.notified, threadToDo]
    | connect hdl w => cases w <;> simp [ThreadPc.notified, Wait.notified, threadToDo]
  calc Runs.owed threadToDo F (fun t => (threads t).notified)
      ≤ ∑ t ∈ F, (threadToDo (threads t) + 3) := Finset.sum_le_sum fun t _ => hone (threads t)
    _ = Runs.owed threadToDo F threads + 3 * F.card := by
      rw [Finset.sum_add_distrib, Finset.sum_const, smul_eq_mul, mul_comm F.card]
      rfl

/-- What is left to do but for the threads in `connect`. -/
def left (s : Deactivation T) : Nat :=
  Runs.owed toTell s.handles.toFinset s.client.sessions + libraryToDo s.client.library +
    (if s.ended then 0 else 1) + if s.deactivate = .done then 0 else 1

/-- Each step that is left can wake up all of the threads. -/
def rank (F : Finset T) (s : Deactivation T) : Nat :=
  (3 * F.card + 1) * s.left + Runs.owed threadToDo F s.client.threads

section Rank

variable {s s' : Deactivation T} {F : Finset T}

omit [DecidableEq T] in
theorem rank_lt_of_left (hleft : s'.left < s.left)
    (hthreads : s'.client.threads = s.client.threads ∨
      s'.client.threads = fun t => (s.client.threads t).notified) : s'.rank F < s.rank F := by
  have howed : Runs.owed threadToDo F s'.client.threads ≤
      Runs.owed threadToDo F s.client.threads + 3 * F.card := by
    obtain hsame | hnotified := hthreads
    · rw [hsame]
      exact Nat.le_add_right _ _
    · rw [hnotified]
      exact owed_notified F _
  have hmul := Nat.mul_le_mul_left (3 * F.card + 1) (Nat.succ_le_of_lt hleft)
  rw [Nat.mul_succ] at hmul
  rw [rank, rank]
  omega

omit [DecidableEq T] in
theorem starts_of_goesOn {a : Action T} (hgoes : s.GoesOn (.client a)) : starts s.client a = [] := by
  cases a with
  | connect | close | wakes | register => cases hgoes
  | resume | succeeds | fails | ends | callback | library => rfl

omit [DecidableEq T] in
/-- The tale of one connection gets shorter. -/
theorem owed_toTell_lt (h : s.Sound) {hdl : Nat} {session : Session} (session' : Session) (n : Nat)
    (hsession : s.client.sessions hdl = some session)
    (hless : toTell (some session') + n < toTell (some session)) :
    Runs.owed toTell s.handles.toFinset (Function.update s.client.sessions hdl (some session')) + n <
      Runs.owed toTell s.handles.toFinset s.client.sessions := by
  have hmem : hdl ∈ s.handles.toFinset :=
    List.mem_toFinset.mpr ((h.handles hdl).mp (by simp [hsession]))
  have howed := Runs.owed_update toTell hmem s.client.sessions (some session')
  rw [hsession] at howed
  omega

omit [DecidableEq T] in
theorem libraryToDo_calls (client : Client T) (handler : Handler) {pc : LibraryPc}
    (hpc : libraryToDo pc = 1) : libraryToDo (client.calls handler pc).library ≤ 1 := by
  rw [Client.calls]
  split
  · exact hpc.le
  · exact Nat.zero_le _

omit [DecidableEq T] in
theorem left_lt_of_calls (connected : Bool) (e : Event) (handler : Handler) {hdl : Nat}
    {pc : LibraryPc} (hpc : libraryToDo pc = 1)
    (hlibrary : s.client.library = .onOpen hdl ∨ s.client.library = .onClose hdl) :
    left { s with client := (s.client.sets connected e).calls handler pc } < s.left := by
  have hcalls := libraryToDo_calls (s.client.sets connected e) handler hpc
  have hbefore : libraryToDo s.client.library = 2 := by
    obtain hlibrary | hlibrary := hlibrary <;> rw [hlibrary] <;> rfl
  simp only [left, hbefore, Client.calls_sessions, Client.sets_sessions]
  omega

theorem threads_of_inRun {a : Action T} {client client' : Client T}
    (hrun : a.inRun = true) (hstep : client.step a = some client') :
    client'.threads = client.threads ∨ client'.threads = fun t => (client.threads t).notified := by
  cases Client.step_cases hstep with
  | connects | connectsNot | closes | blocks | returns | sleeps | retests | wakes
  | registers => cases hrun
  | succeeds | fails | ends | handled => exact .inl rfl
  | begins => exact .inl (threads_begins _ _ _)
  | opens | closed => exact .inr (threads_calls _ _ _)
  | failed => exact .inr rfl

/-- A step by which the library goes on. -/
theorem left_lt_of_inRun (h : s.Sound) {a : Action T} {client : Client T}
    (hnothing : s.NothingOpen) (hgoes : s.GoesOn (.client a)) (hrun : a.inRun = true)
    (hstep : s.client.step a = some client) :
    left { s with client, handles := s.handles ++ starts s.client a } < s.left := by
  rw [starts_of_goesOn hgoes, List.append_nil]
  have hconnecting {hdl : Nat} {owed : List Callback} :
      s.client.sessions hdl ≠ some ⟨.connecting, owed⟩ := fun hsession =>
    (hnothing hdl).1 (Client.state_of_session hsession)
  cases Client.step_cases hstep with
  | connects | connectsNot | closes | blocks | returns | sleeps | retests | wakes
  | registers => cases hrun
  | succeeds hsession | fails hsession => exact absurd hsession hconnecting
  | @ends hdl state owed _ hsession =>
      obtain rfl : state = .closing := by
        have hstate : s.client.state hdl = some .closing := hgoes
        simpa [Client.state_of_session hsession] using hstate
      have howed := owed_toTell_lt h ⟨.closed, owed ++ [.close]⟩ 0 hsession
        (by simp only [toTell, List.length_append, List.length_singleton]; omega)
      simp only [left, Client.becomes] at howed ⊢
      omega
  | @begins hdl state cb owed hlibrary hsession =>
      have howed := owed_toTell_lt h ⟨state, owed⟩ 3 hsession
        (by rw [toTell_cons]; omega)
      have hsessions : ((s.client.becomes hdl state owed).begins hdl cb).sessions =
          Function.update s.client.sessions hdl (some ⟨state, owed⟩) := Client.begins_sessions _ _ _
      have hbegins : libraryToDo ((s.client.becomes hdl state owed).begins hdl cb).library = 2 := by
        cases cb <;> rfl
      simp only [left, hsessions, hbegins, hlibrary]
      omega
  | opens hlibrary => exact left_lt_of_calls _ _ _ rfl (.inl hlibrary)
  | closed hlibrary => exact left_lt_of_calls _ _ _ rfl (.inr hlibrary)
  | failed hlibrary =>
      simp [left, hlibrary, libraryToDo]
  | handled hlibrary =>
      obtain hlibrary | hlibrary := hlibrary <;> simp [left, hlibrary, libraryToDo]

/-- A step by which a thread in `connect` goes on. -/
theorem rank_lt_of_resume {t : T} {client : Client T}
    (hF : Runs.IdleOutside .idle F s.client.threads)
    (hstep : s.client.step (.resume t) = some client) :
    rank F { s with client, handles := s.handles ++ starts s.client (.resume t) } < s.rank F ∧
      Runs.IdleOutside .idle F client.threads := by
  have hmoves (pc : ThreadPc) (hbusy : s.client.threads t ≠ .idle)
      (hless : threadToDo pc < threadToDo (s.client.threads t))
      (hthreads : client.threads = Function.update s.client.threads t pc)
      (hsessions : client.sessions = s.client.sessions)
      (hlibrary : client.library = s.client.library) :
      rank F { s with client, handles := s.handles ++ starts s.client (.resume t) } < s.rank F ∧
        Runs.IdleOutside .idle F client.threads := by
    have ht := hF.mem hbusy
    have howed := Runs.owed_update threadToDo ht s.client.threads pc
    refine ⟨?_, hthreads ▸ hF.update ht⟩
    simp only [rank, left, starts, List.append_nil, hsessions, hlibrary, hthreads]
    omega
  cases Client.step_cases hstep with
  | blocks hthread | sleeps hthread | retests hthread | returns hthread =>
      refine hmoves _ ?_ ?_ rfl rfl rfl
      · simp [hthread]
      · simp [hthread, threadToDo]

theorem exists_step (h : s.Sound) (hjoin : s.deactivate = .join)
    (hnothing : s.ended = false → s.NothingOpen) : ∃ a s', s.GoesOn a ∧ s.step a = some s' := by
  cases hended : s.ended with
  | true => exact ⟨.deactivates, _, trivial, by simp only [step, deactivates, hjoin, hended, if_true]; rfl⟩
  | false =>
      have hclient {a : Action T} (hgoes : s.GoesOn (.client a)) (hsome : (s.client.step a).isSome) :
          ∃ a s', s.GoesOn a ∧ s.step a = some s' := by
        obtain ⟨client, hstep⟩ := Option.isSome_iff_exists.mp hsome
        exact ⟨.client a, _, hgoes, by simp only [step, hended, hstep]; rfl⟩
      cases hlibrary : s.client.library with
      | openHandler | closeHandler =>
          exact hclient (a := .library) trivial (by simp [Client.step, Client.works, hlibrary])
      | onOpen hdl | onFail hdl | onClose hdl =>
          -- the mutex is free, or the thread that holds it goes on
          cases hmux : s.client.connectedMux with
          | none =>
              exact hclient (a := .library) trivial
                (by simp [Client.step, Client.works, hlibrary, hmux])
          | some o =>
              have hholds := (h.mutex o).mp hmux
              cases o with
              | library => simp [Client.holdsMux, hlibrary, LibraryPc.holdsMux] at hholds
              | thread t => exact hclient (a := .resume t) trivial (h.resumes_isSome hholds)
      | run =>
          by_cases hwork : s.OutOfWork
          · exact ⟨.runReturns, _, trivial, by simp only [step, runReturns, hended, hjoin, hwork]; rfl⟩
          · simp only [OutOfWork, hlibrary, true_and, not_forall] at hwork
            obtain ⟨hdl, hmem, hsession⟩ := hwork
            obtain ⟨⟨state, owed⟩, hsome⟩ := Option.ne_none_iff_exists'.mp ((h.handles hdl).mpr hmem)
            have hstate := Client.state_of_session hsome
            cases owed with
            | cons cb owed =>
                exact hclient (a := .callback hdl) trivial
                  (by simp [Client.step, Client.callback, hlibrary, hsome])
            | nil =>
                cases state with
                | connecting => exact absurd hstate (hnothing hended hdl).1
                | «open» => exact absurd hstate (hnothing hended hdl).2
                | closing =>
                    exact hclient (a := .ends hdl) hstate (by simp [Client.step, Client.ends, hsome])
                | closed => exact absurd hsome hsession

end Rank

/-! ### The end of a deactivate -/

section End

variable {s s' : Deactivation T} {a : DeactivationAction T} {hdl : Nat}
  {registered : Handler → Bool}

/-- A connection whose handshake is over stays as it is, or is closed when it was being closed. -/
theorem state_of_step {a : Action T} {client : Client T} (hgoes : s.GoesOn (.client a))
    (hstep : s.client.step a = some client) (hdl : Nat) :
    client.state hdl = s.client.state hdl ∨ s.client.state hdl = some .connecting ∨
      s.client.state hdl = some .closing ∧ client.state hdl = some .closed := by
  cases Client.step_cases hstep with
  | connects | connectsNot | closes | wakes | registers => cases hgoes
  | @succeeds hdl' _ hsession | @fails hdl' _ hsession =>
      by_cases hhdl : hdl = hdl'
      · exact .inr (.inl (hhdl ▸ Client.state_of_session hsession))
      · exact .inl (by simp [hhdl])
  | @ends hdl' =>
      by_cases hhdl : hdl = hdl'
      · exact .inr (.inr ⟨hhdl ▸ hgoes, by simp [hhdl]⟩)
      · exact .inl (by simp [hhdl])
  | @begins hdl' _ _ _ _ hsession =>
      refine .inl ?_
      by_cases hhdl : hdl = hdl'
      · simp [hhdl, Client.state_of_session hsession]
      · simp [hhdl]
  | opens | closed => exact .inl (by simp)
  | blocks | sleeps | retests | returns | failed | handled => exact .inl rfl

theorem NothingOpen.step (h : s.NothingOpen) (hgoes : s.GoesOn a) (hstep : s.step a = some s')
    (hjoin : s.deactivate = .join) : s'.NothingOpen := by
  cases step_cases hstep with
  | client _ hclient =>
      intro hdl
      obtain hsame | hconnecting | ⟨-, hclosed⟩ := state_of_step hgoes hclient hdl
      · exact hsame ▸ h hdl
      · exact absurd hconnecting (h hdl).1
      · exact ⟨by simp [hclosed], by simp [hclosed]⟩
  | returns | joins => exact h
  | stopsPerpetual hactive => exact absurd (hactive.symm.trans hjoin) (by simp)
  | closes hclose => exact absurd (hclose.symm.trans hjoin) (by simp)

/-- What is known on the way to the end. -/
structure Ending (F : Finset T) (s : Deactivation T) : Prop where
  sound : s.Sound
  late : s.deactivate = .join ∨ s.deactivate = .done
  nothing : s.ended = false → s.NothingOpen
  idle : Runs.IdleOutside .idle F s.client.threads

theorem Ending.step {F : Finset T} (h : s.Ending F) (hnot : s.deactivate ≠ .done)
    (hgoes : s.GoesOn a) (hstep : s.step a = some s') : s'.Ending F ∧ s'.rank F < s.rank F := by
  have hjoin := h.late.resolve_right hnot
  have hsound := h.sound.step hstep
  have hnothing (hended : s.ended = false) := (h.nothing hended).step hgoes hstep hjoin
  cases step_cases hstep with
  | @client a client hrefused hclient =>
      by_cases hresume : ∃ t, a = .resume t
      · obtain ⟨t, rfl⟩ := hresume
        obtain ⟨hlt, hidle⟩ := rank_lt_of_resume h.idle hclient
        exact ⟨⟨hsound, .inl hjoin, hnothing, hidle⟩, hlt⟩
      · have hrun : a.inRun = true := by
          cases a with
          | resume t => exact absurd ⟨t, rfl⟩ hresume
          | connect | close | wakes | register => cases hgoes
          | succeeds | fails | ends | callback | library => rfl
        have hended : s.ended = false := by simpa [hrun] using hrefused
        have hthreads := threads_of_inRun hrun hclient
        have hlt := left_lt_of_inRun h.sound (h.nothing hended) hgoes hrun hclient
        refine ⟨⟨hsound, .inl hjoin, hnothing, fun t ht => ?_⟩, rank_lt_of_left hlt hthreads⟩
        obtain hsame | hnotified := hthreads
        · exact hsame ▸ h.idle t ht
        · simp [hnotified, h.idle t ht, ThreadPc.notified]
  | returns hended =>
      refine ⟨⟨hsound, .inl hjoin, by simp, h.idle⟩, rank_lt_of_left ?_ (.inl rfl)⟩
      simp [left, hended]
  | joins =>
      refine ⟨⟨hsound, .inr rfl, hnothing, h.idle⟩, rank_lt_of_left ?_ (.inl rfl)⟩
      simp [left, hjoin]
  | stopsPerpetual hactive => exact absurd (hactive.symm.trans hjoin) (by simp)
  | closes hclose => exact absurd (hclose.symm.trans hjoin) (by simp)

/-- An open connection that nobody has closed keeps the event loop at work. -/
structure Waits (s : Deactivation T) (hdl : Nat) : Prop where
  sound : s.Sound
  join : s.deactivate = .join
  running : s.ended = false
  opened : s.client.state hdl = some .open

theorem Waits.step (h : s.Waits hdl) (hgoes : s.GoesOn a) (hstep : s.step a = some s') :
    s'.Waits hdl := by
  have hsound := h.sound.step hstep
  have hopened := h.opened
  cases step_cases hstep with
  | client _ hclient =>
      refine ⟨hsound, h.join, h.running, ?_⟩
      obtain hsame | hconnecting | ⟨hclosing, -⟩ := state_of_step hgoes hclient hdl
      · exact hsame.trans hopened
      · exact absurd (hopened.symm.trans hconnecting) (by simp)
      · exact absurd (hopened.symm.trans hclosing) (by simp)
  | returns _ _ hwork =>
      have hmem : hdl ∈ s.handles := by
        refine (h.sound.handles hdl).mp fun hnone => ?_
        simp [Client.state, hnone] at hopened
      have hclosed := Client.state_of_session (hwork.2 hdl hmem)
      exact absurd (hopened.symm.trans hclosed) (by simp)
  | stopsPerpetual hactive => exact absurd (hactive.symm.trans h.join) (by simp)
  | closes hclose => exact absurd (hclose.symm.trans h.join) (by simp)
  | joins _ hended => exact absurd (hended.symm.trans h.running) (by simp)

theorem Waits.not_inevitably (h : s.Waits hdl) :
    ¬ Runs.Inevitably Deactivation.step GoesOn (fun s' => s'.deactivate = .done) s :=
  Runs.not_inevitably_of_invariant (fun s => s.Waits hdl) h (fun _ _ _ hwaits => hwaits.step)
    fun _ hwaits => by simp [hwaits.join]

/-- **The end of a deactivate.** Once it has closed the current connection and waits for the library
thread, `deactivate` comes to its end, however the library goes on, if and only if the event loop has
returned already or no connection is open or on the way to it. -/
theorem deactivate_ends_iff
    (h : Runs.Reachable step (fun _ _ => True) (activated registered : Deactivation T) s)
    (hjoin : s.deactivate = .join) :
    Runs.Inevitably step GoesOn (fun s' => s'.deactivate = .done) s ↔
      (s.ended = false → s.NothingOpen) := by
  have hsound := Sound.of_reachable h
  constructor
  · intro hend hended hdl
    refine ⟨fun hconnecting => ?_, fun hopened => ?_⟩
    · -- the handshake may succeed
      obtain ⟨⟨state, owed⟩, hsession, rfl⟩ := Option.map_eq_some_iff.mp hconnecting
      have hstep : s.step (.client (.succeeds hdl)) = some { s with
          client := s.client.becomes hdl .open (owed ++ [.open]), handles := s.handles ++ [] } := by
        simp [step, hended, Client.step, Client.succeeds, hsession, starts]
      have hwaits : Waits _ hdl := ⟨hsound.step hstep, hjoin, hended, by simp⟩
      refine hwaits.not_inevitably (hend.after (by simp [hjoin]) ?_ hstep)
      trivial
    · exact Waits.not_inevitably ⟨hsound, hjoin, hended, hopened⟩ hend
  · intro hnothing
    obtain ⟨F, hF⟩ := Runs.exists_idleOutside hsound.finite
    refine (Runs.inevitably_of_rank (P := fun s' : Deactivation T => s'.deactivate = .done)
      (Ending F) (rank F) ?_ ?_ ⟨hsound, .inl hjoin, hnothing, hF⟩).mono fun _ hend => hend.1
    · rintro s hending hnot
      exact exists_step hending.sound (hending.late.resolve_right hnot) hending.nothing
    · rintro s a s' hending hnot hgoes hstep
      exact hending.step hnot hgoes hstep

/-- Two threads call `connect` at the same time: both connections open, and only the last of them is
closed. -/
theorem deactivate_ends_iff_second : ∃ s : Deactivation Bool, s.deactivate = .join ∧
    s.client.state 0 = some .open ∧ s.client.state 1 = some .closing ∧
      ¬ Runs.Inevitably step GoesOn (fun s' => s'.deactivate = .done) s := by
  obtain ⟨s, hs, hjoin, hended, hfirst, hsecond⟩ : ∃ s : Deactivation Bool,
      Runs.Reachable step (fun _ _ => True) (activated fun _ => false) s ∧
      s.deactivate = .join ∧ s.ended = false ∧ s.client.state 0 = some .open ∧
      s.client.state 1 = some .closing := by
    refine Runs.exists_reachable [.client (.connect false (some 0)), .client (.resume false),
      .client (.resume false), .client (.connect true (some 1)), .client (.resume true),
      .client (.resume true), .client (.succeeds 0), .client (.callback 0), .client .library,
      .client (.succeeds 1), .client (.callback 1), .client .library, .deactivates,
      .deactivates] (by decide +kernel)
  refine ⟨s, hjoin, hfirst, hsecond, fun hend => ?_⟩
  exact ((deactivate_ends_iff hs hjoin).mp hend hended 0).2 hfirst

end End

end Deactivation

end Shapeware.WebsocketClient
