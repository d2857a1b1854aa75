import Shapeware.Mqtt.Ledger
import Shapeware.Mqtt.PublishLimit

/-!
# One client after another

`destroy` frees the client, and with it the requests that are not answered yet. Their contexts stay in
the maps, where the next client finds them: its tokens are counted from the start again, so that it
stores contexts over them, and an answer that finds no context of its own finds an old one.
-/

namespace Shapeware.Mqtt

open Correlation

/-- The actions of a service whose clients come and go. -/
inductive LifeAction
  | own (a : Action)
  /-- `create`, with whether the library gives a client. A service that has one throws. -/
  | create (created : Bool)
  /-- `destroy`, at the end of which nothing is answered any more. -/
  | destroy

namespace Session

variable {tokens : Set Int}

def life (w : Session) : LifeAction → Option Session
  | .own (.delivered token) => if w.imp.client then w.step (.delivered token) else none
  | .own a => w.step a
  | .create created => some { w with imp := { w.imp with client := w.imp.client || created } }
  | .destroy => some { w with imp := { w.imp with client := false }, inFlight := [] }

/-- The requests of one client that are in flight have distinct tokens among `tokens`, and contexts are
stored as requests are accepted. -/
def Lawful (tokens : Set Int) (w : Session) : LifeAction → Prop
  | .own a => w.DistinctOn tokens a ∧ AtomicStore a
  | .create _ | .destroy => True

/-- A call whose context is stored as the library accepts the request. -/
def called (w : Session) (r : Request) : Session := (w.accepts r).stores r

instance [DecidablePred (· ∈ tokens)] (w : Session) : ∀ a, Decidable (w.DistinctOn tokens a)
  | .call _ (.accepted token) => inferInstanceAs (Decidable (token ∈ tokens → w.FreshToken token))
  | .accept _ token => inferInstanceAs (Decidable (token ∈ tokens → w.FreshToken token))
  | .call _ (.refused _) | .store _ | .answer _ _ | .delivered _ => .isTrue trivial

instance [DecidablePred (· ∈ tokens)] (w : Session) : ∀ a, Decidable (w.Lawful tokens a)
  | .own a => inferInstanceAs (Decidable (w.DistinctOn tokens a ∧ AtomicStore a))
  | .create _ | .destroy => .isTrue trivial

def Unanswered (w : Session) (r : Request) : Prop := ∀ answer, (r, answer) ∉ w.answered

/-- The requests whose contexts are in the maps: neither they nor a later request under their key have
been answered, and the later ones have been dropped. -/
def held (w : Session) : Set Request :=
  {r | r ∈ w.accepted ∧ r.call ∉ w.dropped ∧
    (∀ b ∈ w.accepted, b.key = r.key → r.call < b.call → b.call ∈ w.dropped) ∧
    ∀ b ∈ w.accepted, b.key = r.key → r.call ≤ b.call → w.Unanswered b}

/-- The answer to `d` is the first one under the key of `r` from `r` on, and every request from `r` to
`d` was dropped. -/
structure Completes (w : Session) (r d : Request) (answer : Answer) : Prop where
  answered : (d, answer) ∈ w.answered
  key : d.key = r.key
  le : r.call ≤ d.call
  dropped : ∀ b ∈ w.accepted, b.key = r.key → r.call < b.call → b.call ≤ d.call →
    b.call ∈ w.dropped
  first : ∀ b ∈ w.accepted, b.key = r.key → r.call ≤ b.call → b.call < d.call → w.Unanswered b

/-- What is known of the numbers of the requests of all clients. -/
structure Counted (tokens : Set Int) (w : Session) : Prop where
  call_lt : ∀ r ∈ w.accepted, r.call < w.calls
  call_inj : ∀ r ∈ w.accepted, ∀ r' ∈ w.accepted, r.call = r'.call → r = r'
  inFlight_accepted : ∀ r ∈ w.inFlight, r ∈ w.accepted
  answered_accepted : ∀ p ∈ w.answered, p.1 ∈ w.accepted ∧ p.1 ∉ w.inFlight
  answered_unique : ∀ p ∈ w.answered, ∀ p' ∈ w.answered, p.1 = p'.1 → p = p'
  dropped_publish : ∀ n ∈ w.dropped, ∃ r ∈ w.accepted, r.call = n ∧ r.op.kind = .publish
  latest : ∀ r ∈ w.inFlight, r.token ∈ tokens → ∀ b ∈ w.accepted, b.key = r.key →
    b.call ≤ r.call

/-- The maps and the log. -/
structure Held (tokens : Set Int) (w : Session) : Prop where
  tracks : Tracks (keysOf tokens) Request.key Request.context w.imp.contextAt w.held
  within : Within Request.key Request.context w.imp.contextAt
    {r | r ∈ w.accepted ∧ r.call ∉ w.dropped}
  log_reports : ∀ c ∈ w.log, ∃ r ∈ w.accepted, r.call ∉ w.dropped ∧ Reports c r
  completed : ∀ r ∈ w.accepted, r.token ∈ tokens → r.call ∉ w.dropped → ∀ d answer,
    w.Completes r d answer → w.completions r.call = [r.completion answer]
  waiting : ∀ r ∈ w.accepted, r.token ∈ tokens → (∀ d answer, ¬ w.Completes r d answer) →
    w.completions r.call = []

variable {w w' : Session} {r d : Request} {answer : Answer} {a : LifeAction}

/-- All that a step does to the requests. -/
inductive Lives (w : Session) : LifeAction → Session → Prop
  | skips {a : LifeAction} {op : Op} {outcome : Except LogicError Unit} :
      Lives w a (w.skips op outcome)
  | calls {op : Op} {token : Int} : Lives w (.own (.call op (.accepted token)))
      (w.called ⟨w.calls, token, op⟩)
  | answers {r : Request} {answer : Answer} (hr : r ∈ w.inFlight) :
      Lives w (.own (.answer r.call answer)) (w.answers r answer)
  | delivers {token : Int} :
      Lives w (.own (.delivered token)) { w with log := w.log ++ w.imp.delivered token }
  | creates {a : LifeAction} {client : Bool} :
      Lives w a { w with imp := { w.imp with client } }
  | destroys : Lives w .destroy { w with imp := { w.imp with client := false }, inFlight := [] }

theorem life_cases (hstoring : w.storing = []) (hlawful : w.Lawful tokens a)
    (h : w.life a = some w') : w.Lives a w' := by
  cases a with
  | own a =>
      have hstep : w.step a = some w' := by
        cases a with
        | delivered token =>
            rw [life] at h
            split_ifs at h
            exact h
        | _ => exact h
      obtain ⟨op, retval, outcome, rfl, rfl⟩ | ⟨op, token, rfl, rfl⟩ | ⟨op, token, rfl, rfl⟩ |
        ⟨r, hr, rfl, rfl⟩ | ⟨r, hr, answer, rfl, rfl⟩ | ⟨token, rfl, rfl⟩ := step_cases hstep
      · exact .skips
      · exact .calls
      · exact absurd hlawful.2 id
      · simp [hstoring] at hr
      · exact .answers hr
      · exact .delivers
  | create created =>
      obtain rfl := Option.some.inj h
      exact .creates
  | destroy =>
      obtain rfl := Option.some.inj h
      exact .destroys

/-! ### The numbers of the requests -/

theorem token_mem_iff (hkey : r.key = d.key) : r.token ∈ tokens ↔ d.token ∈ tokens := by
  have htoken : r.token = d.token := congrArg Prod.snd hkey
  rw [htoken]

theorem mem_accepted_called {b : Request} :
    b ∈ (w.called r).accepted ↔ b ∈ w.accepted ∨ b = r := by
  simp [called, accepts, stores]

theorem mem_dropped_called {n : Nat} (hn : n ≠ r.call) :
    n ∈ (w.called r).dropped ↔ n ∈ w.dropped := by
  by_cases h : w.imp.drops r.op = true <;> simp [called, accepts, stores, h, hn]

theorem mem_dropped_called_of_mem {n : Nat} (hn : n ∈ w.dropped) : n ∈ (w.called r).dropped := by
  by_cases h : w.imp.drops r.op = true <;> simp [called, accepts, stores, h, hn]

theorem call_mem_dropped_called (hr : r.call ∉ w.dropped) :
    r.call ∈ (w.called r).dropped ↔ w.imp.drops r.op = true := by
  by_cases h : w.imp.drops r.op = true <;> simp [called, accepts, stores, h, hr]

theorem contextAt_called (w : Session) (r : Request) :
    (w.called r).imp.contextAt = if w.imp.drops r.op then w.imp.contextAt else
      Function.update w.imp.contextAt r.key (some r.context) :=
  Imp.contextAt_store _ _ _ _

namespace Counted

theorem init (bufferSize : Int) : (init bufferSize).Counted tokens := by
  constructor <;> simp [Session.init]

theorem calls_notMem (h : w.Counted tokens) : w.calls ∉ w.dropped := by
  intro hmem
  obtain ⟨r, hr, hcall, -⟩ := h.dropped_publish _ hmem
  exact (h.call_lt r hr).ne hcall

theorem called (h : w.Counted tokens) {token : Int} {op : Op}
    (hfresh : token ∈ tokens → w.FreshToken token) :
    (w.called ⟨w.calls, token, op⟩).Counted tokens where
  call_lt := by
    intro r hr
    obtain hr | rfl := mem_accepted_called.mp hr
    · exact Nat.lt_succ_of_lt (h.call_lt r hr)
    · exact Nat.lt_succ_self _
  call_inj := by
    intro r hr r' hr' heq
    obtain hr | rfl := mem_accepted_called.mp hr
    · obtain hr' | rfl := mem_accepted_called.mp hr'
      · exact h.call_inj r hr r' hr' heq
      · exact absurd heq (h.call_lt r hr).ne
    · obtain hr' | rfl := mem_accepted_called.mp hr'
      · exact absurd heq.symm (h.call_lt r' hr').ne
      · rfl
  inFlight_accepted := by
    intro r hr
    obtain hr | rfl := by simpa [Session.called, accepts, stores] using hr
    · exact mem_accepted_called.mpr (.inl (h.inFlight_accepted r hr))
    · exact mem_accepted_called.mpr (.inr rfl)
  answered_accepted := by
    intro p hp
    obtain ⟨hmem, hnot⟩ := h.answered_accepted p hp
    refine ⟨mem_accepted_called.mpr (.inl hmem), ?_⟩
    simp only [Session.called, accepts, stores, List.mem_append, List.mem_singleton, not_or]
    exact ⟨hnot, fun heq => (h.call_lt _ hmem).ne (by rw [heq])⟩
  answered_unique := h.answered_unique
  dropped_publish := by
    intro n hn
    by_cases hcall : n = w.calls
    · subst hcall
      have hdrops := (call_mem_dropped_called (r := ⟨w.calls, token, op⟩) h.calls_notMem).mp hn
      refine ⟨_, mem_accepted_called.mpr (.inr rfl), rfl, ?_⟩
      cases op <;> simp_all [Imp.drops, Op.kind]
    · obtain ⟨r, hr, hrn, hkind⟩ :=
        h.dropped_publish n ((mem_dropped_called (r := ⟨w.calls, token, op⟩) hcall).mp hn)
      exact ⟨r, mem_accepted_called.mpr (.inl hr), hrn, hkind⟩
  latest := by
    intro r hr htoken b hb hkey
    obtain hb | rfl := mem_accepted_called.mp hb
    · obtain hr | rfl := by simpa [Session.called, accepts, stores] using hr
      · exact h.latest r hr htoken b hb hkey
      · exact (h.call_lt b hb).le
    · obtain hr | rfl := by simpa [Session.called, accepts, stores] using hr
      · have htokens : token = r.token := congrArg Prod.snd hkey
        exact absurd htokens.symm (hfresh (htokens ▸ htoken) r hr)
      · exact le_rfl

theorem unanswered (h : w.Counted tokens) (hr : r ∈ w.inFlight) : w.Unanswered r :=
  fun _ hmem => (h.answered_accepted _ hmem).2 hr

theorem answers (h : w.Counted tokens) (hr : r ∈ w.inFlight) (answer : Answer) :
    (w.answers r answer).Counted tokens where
  call_lt := h.call_lt
  call_inj := h.call_inj
  inFlight_accepted := fun b hb => h.inFlight_accepted b (List.mem_of_mem_filter hb)
  answered_accepted := by
    intro p hp
    obtain hp | rfl := by simpa [Session.answers] using hp
    · obtain ⟨hmem, hnot⟩ := h.answered_accepted p hp
      exact ⟨hmem, fun hflight => hnot (List.mem_of_mem_filter hflight)⟩
    · exact ⟨h.inFlight_accepted r hr, by simp [Session.answers]⟩
  answered_unique := by
    intro p hp p' hp' heq
    have hnew : ∀ p ∈ w.answered, p.1 ≠ r :=
      fun p hp hpr => h.unanswered hr p.2 (by rw [← hpr]; exact hp)
    obtain hp | rfl := by simpa [Session.answers] using hp
    · obtain hp' | rfl := by simpa [Session.answers] using hp'
      · exact h.answered_unique p hp p' hp' heq
      · exact absurd heq (hnew p hp)
    · obtain hp' | rfl := by simpa [Session.answers] using hp'
      · exact absurd heq.symm (hnew p' hp')
      · rfl
  dropped_publish := h.dropped_publish
  latest := fun b hb => h.latest b (List.mem_of_mem_filter hb)

theorem step (h : w.Counted tokens) (hlawful : w.Lawful tokens a) (hlives : w.Lives a w') :
    w'.Counted tokens := by
  cases hlives with
  | skips =>
      exact ⟨fun r hr => Nat.lt_succ_of_lt (h.call_lt r hr), h.call_inj, h.inFlight_accepted,
        h.answered_accepted, h.answered_unique, h.dropped_publish, h.latest⟩
  | calls => exact h.called hlawful.1
  | answers hr => exact h.answers hr _
  | delivers | creates =>
      exact ⟨h.call_lt, h.call_inj, h.inFlight_accepted, h.answered_accepted, h.answered_unique,
        h.dropped_publish, h.latest⟩
  | destroys =>
      exact ⟨h.call_lt, h.call_inj, by simp, fun p hp => ⟨(h.answered_accepted p hp).1, by simp⟩,
        h.answered_unique, h.dropped_publish, by simp⟩

end Counted

/-! ### The maps and the log -/

theorem completions_eq (h : ∀ c ∈ w.log, ∃ r ∈ w.accepted, r.call ∉ w.dropped ∧ Reports c r)
    {n : Nat} (hnot : ∀ r ∈ w.accepted, r.call ∉ w.dropped → r.call ≠ n) :
    w.completions n = [] := by
  refine List.filter_eq_nil_iff.mpr fun c hc => ?_
  obtain ⟨r, hr, hdropped, hreports⟩ := h c hc
  simp [hreports.hndl, hnot r hr hdropped]

theorem delivered_reports {known : Set Request}
    (h : Within Request.key Request.context w.imp.contextAt known) {token : Int}
    {c : HandlerCall Nat} (hc : c ∈ w.imp.delivered token) :
    ∃ r ∈ known, ∃ topic qos msg, r.op = .publish topic qos msg ∧
      c = .onDelivery r.call topic qos true := by
  rw [Imp.delivered_eq] at hc
  obtain ⟨pc, hpc, rfl⟩ := Option.map_eq_some_iff.mp (Option.mem_toList.mp hc)
  obtain ⟨⟨n, t, op⟩, hr, hkey, hcontext⟩ := h _ _ (Imp.contextAt_publish.mpr hpc)
  refine ⟨_, hr, ?_⟩
  cases op with
  | publish topic qos msg =>
      obtain rfl := Context.publish.inj hcontext
      exact ⟨topic, qos, msg, rfl, rfl⟩
  | subscribe | unsubscribe => cases hcontext

theorem Completes.congr (h : w.Completes r d answer) (haccepted : w'.accepted = w.accepted)
    (hdropped : w'.dropped = w.dropped) (hanswered : w'.answered = w.answered) :
    w'.Completes r d answer := by
  constructor
  · rw [hanswered]
    exact h.answered
  · exact h.key
  · exact h.le
  · rw [haccepted, hdropped]
    exact h.dropped
  · simpa only [Unanswered, haccepted, hanswered] using h.first

namespace Held

theorem init (bufferSize : Int) : (Session.init bufferSize).Held tokens := by
  have hempty : (Session.init bufferSize).imp.contextAt = fun _ => none := by
    funext ⟨kind, token⟩
    cases kind <;> simp [Session.init, Imp.contextAt]
  refine ⟨?_, hempty ▸ Within.empty, by simp [Session.init], by simp [Session.init],
    by simp [Session.init]⟩
  rw [hempty]
  exact Tracks.empty.congr fun r _ => by simp [Session.init, held]

/-- What is held and completed depends on the requests and their answers alone. -/
theorem frame (h : w.Held tokens) (haccepted : w'.accepted = w.accepted)
    (hdropped : w'.dropped = w.dropped) (hanswered : w'.answered = w.answered)
    (hcontextAt : w'.imp.contextAt = w.imp.contextAt) (hlog : w'.log = w.log) :
    w'.Held tokens := by
  have hheld : w'.held = w.held := by
    simp only [held, Unanswered, haccepted, hdropped, hanswered]
  constructor
  · rw [hcontextAt, hheld]
    exact h.tracks
  · rw [hcontextAt, haccepted, hdropped]
    exact h.within
  · rw [hlog, haccepted, hdropped]
    exact h.log_reports
  · intro r hr htoken hnot d answer hcomp
    rw [completions, hlog]
    exact h.completed r (haccepted ▸ hr) htoken (hdropped ▸ hnot) d answer
      (hcomp.congr haccepted.symm hdropped.symm hanswered.symm)
  · intro r hr htoken hnone
    rw [completions, hlog]
    exact h.waiting r (haccepted ▸ hr) htoken fun d answer hcomp =>
      hnone d answer (hcomp.congr haccepted hdropped hanswered)

theorem delivers (h : w.Held tokens) (token : Int) :
    Held tokens { w with log := w.log ++ w.imp.delivered token } := by
  have hcompletions : ∀ n, Session.completions { w with log := w.log ++ w.imp.delivered token } n
      = w.completions n := by
    intro n
    rw [completions_append (w := w) rfl]
    refine List.append_right_eq_self.mpr (List.filter_eq_nil_iff.mpr fun c hc => ?_)
    obtain ⟨r, -, topic, qos, msg, -, rfl⟩ := delivered_reports h.within hc
    simp [HandlerCall.isCompletion]
  refine ⟨h.tracks, h.within, ?_, ?_, ?_⟩
  · intro c hc
    obtain hc | hc := List.mem_append.mp hc
    · exact h.log_reports c hc
    · obtain ⟨r, hr, hrest⟩ := delivered_reports h.within hc
      exact ⟨r, hr.1, hr.2, .inr hrest⟩
  · rintro r hr htoken hnot d answer hcompletes
    rw [hcompletions]
    exact h.completed r hr htoken hnot d answer (hcompletes.congr rfl rfl rfl)
  · rintro r hr htoken hnone
    rw [hcompletions]
    refine h.waiting r hr htoken fun d answer hcompletes => ?_
    exact hnone d answer (hcompletes.congr rfl rfl rfl)

/-- A new request is held unless it is dropped, and ends what was held under its key. -/
theorem mem_held_called (hcount : w.Counted tokens) {r₀ : Request} (hcall : r₀.call = w.calls) :
    r ∈ (w.called r₀).held ↔
      if w.imp.drops r₀.op then r ∈ w.held else r = r₀ ∨ r ∈ w.held ∧ r.key ≠ r₀.key := by
  have hnotMem : r₀.call ∉ w.dropped := hcall ▸ hcount.calls_notMem
  have hne : ∀ b ∈ w.accepted, b.call ≠ r₀.call := fun b hb => hcall ▸ (hcount.call_lt b hb).ne
  have hdropped : ∀ b ∈ w.accepted,
      (b.call ∈ (w.called r₀).dropped ↔ b.call ∈ w.dropped) :=
    fun b hb => mem_dropped_called (hne b hb)
  have hnew := call_mem_dropped_called hnotMem
  have hunanswered : (w.called r₀).Unanswered r₀ := fun answer hmem =>
    hne _ (hcount.answered_accepted _ hmem).1 rfl
  by_cases hr : r = r₀
  · subst hr
    have hnotHeld : r ∉ w.held := fun hmem => hne r hmem.1 rfl
    split_ifs with hdrops
    · exact iff_of_false (fun hmem => hmem.2.1 (hnew.mpr hdrops)) hnotHeld
    · refine iff_of_true ⟨mem_accepted_called.mpr (.inr rfl), fun hmem => hdrops (hnew.mp hmem),
        fun b hb _ hlt => ?_, fun b hb _ hle => ?_⟩ (.inl rfl)
      · obtain hb | rfl := mem_accepted_called.mp hb
        · exact absurd (hcount.call_lt b hb) (by omega)
        · exact absurd hlt (lt_irrefl _)
      · obtain hb | rfl := mem_accepted_called.mp hb
        · exact absurd (hcount.call_lt b hb) (by omega)
        · exact hunanswered
  · have hiff : r ∈ (w.called r₀).held ↔
        r ∈ w.held ∧ (r₀.key = r.key → w.imp.drops r₀.op = true) := by
      constructor
      · rintro ⟨hmem, hnot, hlater, hopen⟩
        have hacc := (mem_accepted_called.mp hmem).resolve_right hr
        refine ⟨⟨hacc, fun h => hnot ((hdropped r hacc).mpr h), fun b hb hkey hlt => ?_,
          fun b hb => hopen b (mem_accepted_called.mpr (.inl hb))⟩, fun hkey => ?_⟩
        · exact (hdropped b hb).mp (hlater b (mem_accepted_called.mpr (.inl hb)) hkey hlt)
        · exact hnew.mp (hlater r₀ (mem_accepted_called.mpr (.inr rfl)) hkey
            (hcall ▸ hcount.call_lt r hacc))
      · rintro ⟨⟨hacc, hnot, hlater, hopen⟩, hdrops⟩
        refine ⟨mem_accepted_called.mpr (.inl hacc), fun h => hnot ((hdropped r hacc).mp h),
          fun b hb hkey hlt => ?_, fun b hb hkey hle => ?_⟩
        · obtain hb | rfl := mem_accepted_called.mp hb
          · exact (hdropped b hb).mpr (hlater b hb hkey hlt)
          · exact hnew.mpr (hdrops hkey)
        · obtain hb | rfl := mem_accepted_called.mp hb
          · exact hopen b hb hkey hle
          · exact hunanswered
    rw [hiff]
    split_ifs with hdrops
    · exact and_iff_left fun _ => hdrops
    · simp [hr, hdrops, eq_comm]

theorem completes_called (hcount : w.Counted tokens) {r₀ : Request} (hcall : r₀.call = w.calls) :
    (w.called r₀).Completes r d answer ↔ w.Completes r d answer := by
  have hdropped : ∀ b ∈ w.accepted,
      (b.call ∈ (w.called r₀).dropped ↔ b.call ∈ w.dropped) :=
    fun b hb => mem_dropped_called (hcall ▸ (hcount.call_lt b hb).ne)
  constructor
  · rintro ⟨hans, hkey, hle, hlater, hfirst⟩
    exact ⟨hans, hkey, hle, fun b hb hkey hlt hle =>
      (hdropped b hb).mp (hlater b (mem_accepted_called.mpr (.inl hb)) hkey hlt hle),
      fun b hb => hfirst b (mem_accepted_called.mpr (.inl hb))⟩
  · rintro ⟨hans, hkey, hle, hlater, hfirst⟩
    have hlt := hcount.call_lt d (hcount.answered_accepted _ hans).1
    refine ⟨hans, hkey, hle, fun b hb hkey hrb hbd => ?_, fun b hb hkey hrb hbd => ?_⟩
    · obtain hb | rfl := mem_accepted_called.mp hb
      · exact (hdropped b hb).mpr (hlater b hb hkey hrb hbd)
      · omega
    · obtain hb | rfl := mem_accepted_called.mp hb
      · exact hfirst b hb hkey hrb hbd
      · omega

theorem called (h : w.Held tokens) (hcount : w.Counted tokens) {r₀ : Request}
    (hcall : r₀.call = w.calls) : (w.called r₀).Held tokens := by
  have hnew := call_mem_dropped_called (hcall ▸ hcount.calls_notMem)
  have hne : ∀ b ∈ w.accepted, b.call ≠ r₀.call := fun b hb => hcall ▸ (hcount.call_lt b hb).ne
  have hstored : {b | b ∈ w.accepted ∧ b.call ∉ w.dropped} ⊆
      {b | b ∈ (w.called r₀).accepted ∧ b.call ∉ (w.called r₀).dropped} := fun b hb =>
    ⟨mem_accepted_called.mpr (.inl hb.1), fun hmem =>
      hb.2 ((mem_dropped_called (hne b hb.1)).mp hmem)⟩
  refine ⟨?_, ?_, ?_, ?_, ?_⟩
  · rw [contextAt_called]
    split_ifs with hdrops
    · exact h.tracks.congr fun r _ => by rw [mem_held_called hcount hcall, if_pos hdrops]
    · refine h.tracks.replace.congr fun r _ => ?_
      rw [mem_held_called hcount hcall, if_neg hdrops]
      rfl
  · rw [contextAt_called]
    split_ifs with hdrops
    · exact h.within.mono hstored
    · exact (h.within.mono hstored).update_some
        ⟨mem_accepted_called.mpr (.inr rfl), fun hmem => hdrops (hnew.mp hmem)⟩
  · intro c hc
    obtain ⟨r, hr, hnot, hreports⟩ := h.log_reports c hc
    obtain ⟨hr, hnot⟩ := hstored ⟨hr, hnot⟩
    exact ⟨r, hr, hnot, hreports⟩
  · intro r hr htoken hnot d answer hcomp
    rw [completes_called hcount hcall] at hcomp
    obtain hr | rfl := mem_accepted_called.mp hr
    · exact h.completed r hr htoken
        (fun hmem => hnot ((mem_dropped_called (hne r hr)).mpr hmem)) d answer hcomp
    · have hlt := hcount.call_lt d (hcount.answered_accepted _ hcomp.answered).1
      exact absurd hcomp.le (by omega)
  · intro r hr htoken hnone
    obtain hr | rfl := mem_accepted_called.mp hr
    · exact h.waiting r hr htoken fun d answer hcomp =>
        hnone d answer ((completes_called hcount hcall).mpr hcomp)
    · exact completions_eq (w := w) h.log_reports fun b hb _ => hne b hb

/-- What an answer calls is the completion of the request that is held under its key. -/
theorem answer_reports (h : w.Held tokens) {c : HandlerCall Nat}
    (hc : c ∈ (w.imp.answer d.op.kind d.token answer).2) :
    ∃ r ∈ w.accepted, r.call ∉ w.dropped ∧ r.key = d.key ∧ (d.token ∈ tokens → r ∈ w.held) ∧
      c = r.completion answer := by
  rw [Imp.answer_snd] at hc
  obtain ⟨context, hcontext, rfl⟩ := Option.map_eq_some_iff.mp (Option.mem_toList.mp hc)
  by_cases htoken : d.token ∈ tokens
  · obtain ⟨r, hr, hkey, rfl⟩ := (h.tracks d.key htoken _).mp hcontext
    exact ⟨r, hr.1, hr.2.1, hkey, fun _ => hr, rfl⟩
  · obtain ⟨r, hr, hkey, rfl⟩ := h.within _ _ hcontext
    exact ⟨r, hr.1, hr.2, hkey, fun hmem => absurd hmem htoken, rfl⟩

theorem answer_eq (h : w.Held tokens) (htoken : d.token ∈ tokens) (hr : r ∈ w.held)
    (hkey : r.key = d.key) :
    (w.imp.answer d.op.kind d.token answer).2 = [r.completion answer] := by
  have hcontext := h.tracks.eq_some (r := r) ((token_mem_iff hkey).mpr htoken) hr
  rw [Imp.answer_snd, show (d.op.kind, d.token) = r.key from hkey.symm, hcontext]
  rfl

/-- A request that is held waits for the next answer under its key. -/
theorem completes_of_held (hcount : w.Counted tokens) (hd : d ∈ w.inFlight)
    (htoken : d.token ∈ tokens) (hr : r ∈ w.held) (hkey : r.key = d.key) :
    (w.answers d answer).Completes r d answer where
  answered := by simp [Session.answers]
  key := hkey.symm
  le := hcount.latest d hd htoken r hr.1 hkey
  dropped := fun b hb hbr hlt _ => hr.2.2.1 b hb hbr hlt
  first := fun b hb hbr hle hlt a hmem => by
    obtain hmem | heq := by simpa [Session.answers] using hmem
    · exact hr.2.2.2 b hb hbr hle a hmem
    · exact absurd hlt (by rw [heq.1]; exact lt_irrefl _)

/-- An answer completes the request that is held under its key and no other one. -/
theorem completes_answers (hcount : w.Counted tokens) (hd : d ∈ w.inFlight)
    {d' : Request} {answer' : Answer} (hrtoken : r.token ∈ tokens) (hr : r ∈ w.accepted)
    (hnot : r.call ∉ w.dropped) (hheld : ¬ (r ∈ w.held ∧ r.key = d.key)) :
    (w.answers d answer).Completes r d' answer' ↔ w.Completes r d' answer' := by
  have hlatest : ∀ b ∈ w.accepted, b.key = r.key → d.key = r.key → b.call ≤ d.call := by
    intro b hb hbr hdr
    exact hcount.latest d hd ((token_mem_iff hdr).mpr hrtoken) b hb
      (hbr.trans hdr.symm)
  have hopen : ∀ b, (w.answers d answer).Unanswered b → w.Unanswered b :=
    fun b hb a hmem => hb a (List.mem_append_left _ hmem)
  constructor
  · rintro ⟨hans, hkey, hle, hdropped, hfirst⟩
    obtain hans | heq := by simpa [Session.answers] using hans
    · exact ⟨hans, hkey, hle, hdropped, fun b hb hbr hrb hbd => hopen b (hfirst b hb hbr hrb hbd)⟩
    · obtain ⟨rfl, rfl⟩ := heq
      refine absurd ⟨⟨hr, hnot, fun b hb hbr hlt => ?_, fun b hb hbr hle => ?_⟩, hkey.symm⟩ hheld
      · exact hdropped b hb hbr hlt (hlatest b hb hbr hkey)
      · obtain hlt | heq := (hlatest b hb hbr hkey).lt_or_eq
        · exact hopen b (hfirst b hb hbr hle hlt)
        · obtain rfl := hcount.call_inj b hb d' (hcount.inFlight_accepted d' hd) heq
          exact hcount.unanswered hd
  · rintro ⟨hans, hkey, hle, hdropped, hfirst⟩
    refine ⟨List.mem_append_left _ hans, hkey, hle, hdropped, fun b hb hbr hrb hbd a hmem => ?_⟩
    obtain hmem | heq := by simpa [Session.answers] using hmem
    · exact hfirst b hb hbr hrb hbd a hmem
    · obtain rfl := heq.1
      have hle' := hlatest d' (hcount.answered_accepted _ hans).1 hkey hbr
      omega

theorem answers (h : w.Held tokens) (hcount : w.Counted tokens) (hd : d ∈ w.inFlight)
    (answer : Answer) : (w.answers d answer).Held tokens := by
  have hdacc := hcount.inFlight_accepted d hd
  -- The log grows by a completion of `r` exactly if `r` is held under the key.
  have hsame : ∀ r ∈ w.accepted, r.token ∈ tokens → ¬ (r ∈ w.held ∧ r.key = d.key) →
      (w.answers d answer).completions r.call = w.completions r.call := by
    intro r hr htoken hheld
    rw [completions_append (w := w) rfl]
    refine List.append_right_eq_self.mpr (List.filter_eq_nil_iff.mpr fun c hc => ?_)
    obtain ⟨b, hb, -, hkey, hbheld, rfl⟩ := h.answer_reports hc
    have hne : b ≠ r := by
      rintro rfl
      exact hheld ⟨hbheld ((token_mem_iff hkey).mp htoken), hkey⟩
    simpa using fun hcall => hne (hcount.call_inj b hb r hr hcall)
  have hcompletes : ∀ r ∈ w.accepted, r.token ∈ tokens → r ∈ w.held → r.key = d.key →
      w.completions r.call = [] ∧
        (w.answers d answer).completions r.call = [r.completion answer] := by
    intro r hr htoken hheld hkey
    have hnil := h.waiting r hr htoken fun d' answer' hcomp => hheld.2.2.2 d'
      (hcount.answered_accepted _ hcomp.answered).1 hcomp.key hcomp.le _ hcomp.answered
    refine ⟨hnil, ?_⟩
    rw [completions_append (w := w) rfl, hnil, h.answer_eq ((token_mem_iff hkey).mp htoken) hheld
      hkey]
    simp
  refine ⟨?_, ?_, ?_, ?_, ?_⟩
  · rw [show (w.answers d answer).imp.contextAt = _ from Imp.contextAt_answer _ _ _ _]
    refine (h.tracks.update_none d.key).congr fun r hkeys => ?_
    constructor
    · rintro ⟨hr, hnot, hlater, hopen⟩
      refine ⟨⟨hr, hnot, hlater, fun b hb hbr hle a hmem =>
        hopen b hb hbr hle a (List.mem_append_left _ hmem)⟩, fun hkey => ?_⟩
      have htoken := (token_mem_iff hkey).mp hkeys
      exact hopen d hdacc hkey.symm (hcount.latest d hd htoken r hr hkey) answer
        (by simp [Session.answers])
    · rintro ⟨⟨hr, hnot, hlater, hopen⟩, hkey⟩
      refine ⟨hr, hnot, hlater, fun b hb hbr hle a hmem => ?_⟩
      obtain hmem | heq := by simpa [Session.answers] using hmem
      · exact hopen b hb hbr hle a hmem
      · exact hkey (heq.1 ▸ hbr.symm)
  · rw [show (w.answers d answer).imp.contextAt = _ from Imp.contextAt_answer _ _ _ _]
    exact h.within.update_none d.key
  · intro c hc
    obtain hc | hc := List.mem_append.mp hc
    · exact h.log_reports c hc
    · obtain ⟨r, hr, hnot, -, -, rfl⟩ := h.answer_reports hc
      exact ⟨r, hr, hnot, .inl ⟨answer, rfl⟩⟩
  · intro r hr htoken hnot d' answer' hcomp
    by_cases hheld : r ∈ w.held ∧ r.key = d.key
    · obtain ⟨-, hcompletions⟩ := hcompletes r hr htoken hheld.1 hheld.2
      obtain hans | heq := by simpa [Session.answers] using hcomp.answered
      · exact absurd hans (hheld.1.2.2.2 d' (hcount.answered_accepted _ hans).1 hcomp.key
          hcomp.le _)
      · rw [hcompletions, heq.2]
    · rw [hsame r hr htoken hheld]
      exact h.completed r hr htoken hnot d' answer'
        ((completes_answers hcount hd htoken hr hnot hheld).mp hcomp)
  · intro r hr htoken hnone
    by_cases hnot : r.call ∈ w.dropped
    · rw [hsame r hr htoken fun hheld => hheld.1.2.1 hnot]
      refine completions_eq h.log_reports fun b hb hbnot heq => hbnot (heq ▸ hnot)
    by_cases hheld : r ∈ w.held ∧ r.key = d.key
    · exact absurd (completes_of_held hcount hd ((token_mem_iff hheld.2).mp htoken) hheld.1 hheld.2)
        (hnone d answer)
    · rw [hsame r hr htoken hheld]
      exact h.waiting r hr htoken fun d' answer' hcomp =>
        hnone d' answer' ((completes_answers hcount hd htoken hr hnot hheld).mpr hcomp)

theorem step (h : w.Held tokens) (hcount : w.Counted tokens) (hlives : w.Lives a w') :
    w'.Held tokens := by
  cases hlives with
  | skips | creates | destroys => exact h.frame rfl rfl rfl rfl rfl
  | calls => exact h.called hcount rfl
  | answers hd => exact h.answers hcount hd _
  | delivers => exact h.delivers _

end Held

/-! ### Clients come and go -/

variable {bufferSize : Int}

theorem storing_of_reachable (h : Runs.Reachable life (Lawful tokens) (init bufferSize) w) :
    w.storing = [] := by
  refine h.invariant (fun w => w.storing = []) rfl fun w a w' hstoring hlawful hstep => ?_
  cases life_cases hstoring hlawful hstep <;>
    simp [called, accepts, stores, skips, Session.answers, hstoring]

theorem held_of_reachable (h : Runs.Reachable life (Lawful tokens) (init bufferSize) w) :
    w.Counted tokens ∧ w.Held tokens := by
  refine h.invariant_of_reachable (fun w => w.Counted tokens ∧ w.Held tokens)
    ⟨.init bufferSize, .init bufferSize⟩ ?_
  rintro w a w' hreach ⟨hcount, hheld⟩ hlawful hstep
  have hlives := life_cases (storing_of_reachable hreach) hlawful hstep
  exact ⟨hcount.step hlawful hlives, hheld.step hcount hlives⟩

theorem completes_self (hans : (r, answer) ∈ w.answered) : w.Completes r r answer where
  answered := hans
  key := rfl
  le := le_rfl
  dropped := fun b hb _ hlt hle => absurd hlt (by omega)
  first := fun b hb _ hle hlt => absurd hlt (by omega)

/-- The answer to another request comes from a later client. -/
theorem Completes.left_behind (h : w.Completes r d answer) (hcount : w.Counted tokens)
    (hr : r ∈ w.accepted) (htoken : r.token ∈ tokens) (hne : d ≠ r) :
    r ∉ w.inFlight ∧ w.Unanswered r ∧ d.call ∈ w.dropped ∧ r.op.kind = .publish := by
  have hd := (hcount.answered_accepted _ h.answered).1
  have hlt : r.call < d.call :=
    h.le.lt_of_ne fun heq => hne (hcount.call_inj d hd r hr heq.symm)
  have hdropped := h.dropped d hd h.key hlt le_rfl
  refine ⟨fun hflight => ?_, h.first r hr rfl le_rfl hlt, hdropped, ?_⟩
  · exact absurd (hcount.latest r hflight htoken d hd h.key) (by omega)
  · obtain ⟨b, hb, hcall, hkind⟩ := hcount.dropped_publish _ hdropped
    obtain rfl := hcount.call_inj b hb d hd hcall
    exact (congrArg Prod.fst h.key).symm.trans hkind

/-- **Answers across clients.** Whatever clients have come and gone, a request that was answered and not
dropped has completed its own handler, once; a request that was dropped, and one for which `Completes`
has no answer, has completed none; and the handler of a publish that was left unanswered by `destroy` is
called when the first request after it under its token that is answered has been dropped, with that
answer. -/
theorem completes_across_clients (h : Runs.Reachable life (Lawful tokens) (init bufferSize) w)
    (hr : r ∈ w.accepted) (htoken : r.token ∈ tokens) :
    (∀ answer, (r, answer) ∈ w.answered → r.call ∉ w.dropped →
      w.completions r.call = [r.completion answer]) ∧
    (r.call ∈ w.dropped ∨ (∀ d answer, ¬ w.Completes r d answer) → w.completions r.call = []) ∧
    ∀ d answer, w.Completes r d answer → d ≠ r →
      r ∉ w.inFlight ∧ w.Unanswered r ∧ d.call ∈ w.dropped ∧ r.op.kind = .publish ∧
        (r.call ∉ w.dropped → w.completions r.call = [r.completion answer]) := by
  obtain ⟨hcount, hheld⟩ := held_of_reachable h
  refine ⟨fun answer hans hnot => ?_, ?_, fun d answer hcomp hne => ?_⟩
  · exact hheld.completed r hr htoken hnot r answer (completes_self hans)
  · rintro (hdropped | hnone)
    · exact completions_eq hheld.log_reports fun b hb hnot heq => hnot (heq ▸ hdropped)
    · exact hheld.waiting r hr htoken hnone
  · obtain ⟨hflight, hopen, hdropped, hkind⟩ := hcomp.left_behind hcount hr htoken hne
    exact ⟨hflight, hopen, hdropped, hkind, fun hnot =>
      hheld.completed r hr htoken hnot d answer hcomp⟩

/-- The first client leaves a message unanswered. The second one sends another message under the same
token, which is dropped, and the answer to it is given to the first. -/
theorem completes_across_clients_stale : ∃ w : Session,
    w.completions 0 = [.onSend 0 (bytes "a") 1 true] ∧ w.completions 1 = [] ∧
      w.answered = [(⟨1, 1, .publish (bytes "b") 1 [8]⟩, .success 1)] := by
  have hrun : ∃ w : Session, Runs.Reachable life (Lawful Set.univ) (init 0) w ∧
      w.accepted = [⟨0, 1, .publish (bytes "a") 1 [7]⟩, ⟨1, 1, .publish (bytes "b") 1 [8]⟩] ∧
      w.dropped = [1] ∧ w.answered = [(⟨1, 1, .publish (bytes "b") 1 [8]⟩, .success 1)] :=
    Runs.exists_reachable
      [.own (.call (.publish (bytes "a") 1 [7]) (.accepted 1)), .destroy, .create true,
        .own (.call (.publish (bytes "b") 1 [8]) (.accepted 1)), .own (.answer 1 (.success 1))]
      (by decide +kernel)
  obtain ⟨w, hw, haccepted, hdropped, hanswered⟩ := hrun
  have hcomp : w.Completes ⟨0, 1, .publish (bytes "a") 1 [7]⟩
      ⟨1, 1, .publish (bytes "b") 1 [8]⟩ (.success 1) := by
    refine ⟨by simp [hanswered], rfl, Nat.zero_le 1, fun b hb _ hlt hle => ?_,
      fun b hb _ hle hlt answer => ?_⟩
    · rw [hdropped, List.mem_singleton]
      exact le_antisymm hle hlt
    · rw [hanswered, List.mem_singleton]
      rintro heq
      exact absurd hlt (by rw [(Prod.mk.inj heq).1]; decide)
  have hstale := (completes_across_clients (r := ⟨0, 1, .publish (bytes "a") 1 [7]⟩) hw
    (by simp [haccepted]) trivial).2.2 _ _ hcomp (by simp)
  have hnone := (completes_across_clients (r := ⟨1, 1, .publish (bytes "b") 1 [8]⟩) hw
    (by simp [haccepted]) trivial).2.1 (.inl (by simp [hdropped]))
  exact ⟨w, hstale.2.2.2.2 (by simp [hdropped]), hnone, hanswered⟩

/-! ### A map that is full for good -/

/-- No message is sent under a token that is in the map. -/
def ClearOfMap (w : Session) : LifeAction → Prop
  | .own (.call op (.accepted token)) =>
    op.kind = .publish → token ∉ w.imp.publishContextMap
  | _ => True

instance (w : Session) : ∀ a, Decidable (w.ClearOfMap a)
  | .own (.call op (.accepted token)) =>
    inferInstanceAs (Decidable (op.kind = .publish → token ∉ w.imp.publishContextMap))
  | .own (.call _ (.refused _)) | .own (.accept ..) | .own (.store _) | .own (.answer ..)
  | .own (.delivered _) | .create _ | .destroy => .isTrue trivial

/-- The map is over its limit with contexts that no request in flight has. -/
structure Full (w : Session) : Prop where
  limit : w.imp.contextLimitReached = true
  clear : ∀ r ∈ w.inFlight, r.op.kind = .publish → r.token ∉ w.imp.publishContextMap

/-- The map is as it was in `w`, and the messages since then were dropped. -/
structure Dropping (w t : Session) : Prop where
  full : t.Full
  map : t.imp.publishContextMap = w.imp.publishContextMap
  dropped : ∀ r ∈ t.accepted, r.op.kind = .publish → r ∈ w.accepted ∨ r.call ∈ t.dropped

theorem publishContextMap_answer_of_notMem {s : Imp Nat} {kind : Kind} {token : Int}
    (h : kind = .publish → token ∉ s.publishContextMap) (answer : Answer) :
    (s.answer kind token answer).1.publishContextMap = s.publishContextMap := by
  have htake : ∀ call : PublishContext Nat → HandlerCall Nat, kind = .publish →
      (Imp.takeContext s.publishContextMap token call).1 = s.publishContextMap := by
    intro call hkind
    rw [Imp.takeContext, Std.ExtTreeMap.getElem?_eq_none (h hkind)]
  cases answer <;> cases kind <;> first | rfl | exact htake _ rfl

theorem publishContextMap_store_of_limit {s : Imp Nat} (hlimit : s.contextLimitReached = true)
    (op : Op) (token : Int) (hndl : Nat) :
    (s.store op token hndl).publishContextMap = s.publishContextMap := by
  cases op with
  | publish topic qos msg => simp [Imp.store, Imp.storePublish, hlimit]
  | _ => rfl

theorem Full.congr (h : w.Full) (hmap : w'.imp.publishContextMap = w.imp.publishContextMap)
    (hsize : w'.imp.bufferSize = w.imp.bufferSize)
    (hflight : ∀ r ∈ w'.inFlight, r ∈ w.inFlight ∨
      (r.op.kind = .publish → r.token ∉ w.imp.publishContextMap)) : w'.Full where
  limit := by simpa [Imp.contextLimitReached, hmap, hsize] using h.limit
  clear := by
    intro r hr hkind
    rw [hmap]
    exact (hflight r hr).elim (fun hr => h.clear r hr hkind) fun hclear => hclear hkind

theorem Dropping.step {t t' : Session} (h : w.Dropping t) (hclear : t.ClearOfMap a)
    (hlives : t.Lives a t') : w.Dropping t' := by
  cases hlives with
  | skips => exact ⟨h.full.congr rfl rfl fun _ => .inl, h.map, h.dropped⟩
  | delivers | creates => exact ⟨h.full.congr rfl rfl fun _ => .inl, h.map, h.dropped⟩
  | destroys => exact ⟨h.full.congr rfl rfl (by simp), h.map, h.dropped⟩
  | @answers r answer hr =>
      have hmap := publishContextMap_answer_of_notMem (h.full.clear r hr) answer
      have hsize := bufferSize_answer t.imp r.op.kind r.token answer
      exact ⟨h.full.congr hmap hsize fun b hb => .inl (List.mem_of_mem_filter hb),
        hmap.trans h.map, h.dropped⟩
  | @calls op token =>
      have hmap := publishContextMap_store_of_limit h.full.limit op token t.calls
      have hsize := bufferSize_store t.imp op token t.calls
      refine ⟨h.full.congr hmap hsize fun b hb => ?_, hmap.trans h.map, fun b hb hkind => ?_⟩
      · obtain hb | rfl := by simpa [called, accepts, stores] using hb
        · exact .inl hb
        · exact .inr hclear
      · obtain hb | rfl := mem_accepted_called.mp hb
        · exact (h.dropped b hb hkind).imp_right mem_dropped_called_of_mem
        · have hdrops : t.imp.drops op = true := by
            cases op with
            | publish => exact h.full.limit
            | _ => cases hkind
          exact .inr (by simp [called, accepts, stores, hdrops])

/-- **A full map stays full.** When the clients that were destroyed have left more publish contexts than
`BufferSize` behind, the map stays as it is as long as no message is sent under a token that is in it,
and no handler of a later message is ever called. -/
theorem unreported_of_full {t : Session}
    (h : Runs.Reachable life (Lawful tokens) (init bufferSize) w) (hfull : w.Full)
    (hrun : Runs.Reachable life (fun t a => t.Lawful tokens a ∧ t.ClearOfMap a) w t) :
    t.imp.publishContextMap = w.imp.publishContextMap ∧
      ∀ r ∈ t.accepted, r.op.kind = .publish → r ∈ w.accepted ∨
        r.call ∈ t.dropped ∧ ∀ c ∈ t.log, c.hndl ≠ r.call := by
  have ht := h.trans (hrun.mono fun _ _ => And.left)
  have hdropping : w.Dropping t := by
    refine hrun.invariant_of_reachable w.Dropping ⟨hfull, rfl, fun _ hr _ => .inl hr⟩ ?_
    intro u a u' hu hdropping hallowed hstep
    have hreach := h.trans (hu.mono fun _ _ => And.left)
    exact hdropping.step hallowed.2 (life_cases (storing_of_reachable hreach) hallowed.1 hstep)
  refine ⟨hdropping.map, fun r hr hkind => (hdropping.dropped r hr hkind).imp_right fun hmem => ?_⟩
  refine ⟨hmem, fun c hc heq => ?_⟩
  obtain ⟨b, -, hnot, hreports⟩ := (held_of_reachable ht).2.log_reports c hc
  exact hnot (hreports.hndl ▸ heq ▸ hmem)

/-- The second client's message is sent and answered, and nobody is told. -/
theorem unreported_of_full_one : ∃ t : Session,
    t.answered = [(⟨1, 2, .publish (bytes "b") 1 [8]⟩, .success 1)] ∧
      ∀ c ∈ t.log, c.hndl ≠ 1 := by
  have hleft : ∃ w : Session, Runs.Reachable life (Lawful Set.univ) (init 0) w ∧ w.inFlight = [] ∧
      w.imp.contextLimitReached = true ∧ w.accepted = [⟨0, 1, .publish (bytes "a") 1 [7]⟩] ∧
      ∃ t ∈ Runs.run life (fun t a => t.Lawful Set.univ a ∧ t.ClearOfMap a) w
        [.create true, .own (.call (.publish (bytes "b") 1 [8]) (.accepted 2)),
          .own (.answer 1 (.success 1))],
        t.accepted = [⟨0, 1, .publish (bytes "a") 1 [7]⟩, ⟨1, 2, .publish (bytes "b") 1 [8]⟩] ∧
          t.answered = [(⟨1, 2, .publish (bytes "b") 1 [8]⟩, .success 1)] :=
    Runs.exists_reachable
      [.own (.call (.publish (bytes "a") 1 [7]) (.accepted 1)), .destroy] (by decide +kernel)
  obtain ⟨w, hw, hflight, hlimit, hold, t, ht, haccepted, hanswered⟩ := hleft
  have hreported := (unreported_of_full hw ⟨hlimit, by simp [hflight]⟩
    (Runs.reachable_of_run ht)).2 ⟨1, 2, .publish (bytes "b") 1 [8]⟩ (by simp [haccepted]) rfl
  exact ⟨t, hanswered, (hreported.resolve_left (by simp [hold])).2⟩

end Session

end Shapeware.Mqtt
