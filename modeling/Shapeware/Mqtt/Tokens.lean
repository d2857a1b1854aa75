import Shapeware.Mqtt.Ledger

/-!
# Token isolation

When storing a context is atomic with the library's acceptance, the keys of the context maps are the
tokens in flight, and an answer reaches the handlers of its own request and of no other, however
often the library reuses its tokens.
-/

namespace Shapeware.Mqtt.Session

open Correlation

structure TokensIsolated (w : Session) : Prop where
  subscribe_keys : ∀ token, token ∈ w.imp.subscribeContextMap ↔
    ∃ r ∈ w.inFlight, r.token = token ∧ r.op.kind = .subscribe
  unsubscribe_keys : ∀ token, token ∈ w.imp.unsubscribeContextMap ↔
    ∃ r ∈ w.inFlight, r.token = token ∧ r.op.kind = .unsubscribe
  publish_keys : ∀ token, token ∈ w.imp.publishContextMap →
    ∃ r ∈ w.inFlight, r.token = token ∧ r.op.kind = .publish
  /-- A stored context has the topic and the handlers of the request that owns the token. -/
  contexts_own : ∀ kind token c, w.imp.contextAt (kind, token) = some c →
    ∃ r ∈ w.inFlight, r.op.kind = kind ∧ r.token = token ∧ c = r.op.context r.call
  /-- The answer that comes next calls the handler of its own request and nothing else. -/
  answer_calls : ∀ r ∈ w.inFlight, ∀ answer,
    (w.answers r answer).log = w.log ++ [r.completion answer] ∨
      r.op.kind = .publish ∧ (w.answers r answer).log = w.log
  /-- Over the run, an answered subscribe or unsubscribe has been reported once. -/
  completed_once : ∀ p ∈ w.answered, p.1.op.kind ≠ .publish →
    w.completions p.1.call = [p.1.completion p.2]
  /-- Over the run, an answered publish has been reported at most once. -/
  published_once : ∀ p ∈ w.answered, p.1.op.kind = .publish →
    w.completions p.1.call = [p.1.completion p.2] ∨ w.completions p.1.call = []
  /-- A request in flight has not been reported. -/
  in_flight_unreported : ∀ r ∈ w.inFlight, w.completions r.call = []
  /-- Nothing else is ever called: a handler call completes an answered request or delivers an
  accepted message. -/
  log_own : ∀ c ∈ w.log, (∃ p ∈ w.answered, c = p.1.completion p.2) ∨
    ∃ r ∈ w.accepted, ∃ topic qos msg, r.op = .publish topic qos msg ∧
      c = .onDelivery r.call topic qos true
  /-- A call that throws leaves all the maps as they were. -/
  throw_unchanged : ∀ op retval hndl e, (w.imp.perform op retval hndl).2 = .error e →
    (w.imp.perform op retval hndl).1 = w.imp

variable {w : Session} {bufferSize : Int}

/-- Only a publish can lose its context. -/
theorem Numbered.call_notMem_dropped {r : Request} (h : w.Numbered) (hr : r ∈ w.accepted)
    (hkind : r.op.kind ≠ .publish) : r.call ∉ w.dropped := by
  intro hmem
  obtain ⟨r', hr', hcall, hkind', _⟩ := h.dropped_publish _ hmem
  exact hkind (h.call_inj r' hr' r hr hcall ▸ hkind')

/-- A completion in the log is that of an answer the library has given. -/
theorem Correlated.completion_answered (h : w.Correlated Set.univ) (hnum : w.Numbered)
    {r : Request} (hr : r ∈ w.stored) {answer : Answer} (hc : r.completion answer ∈ w.log) :
    ∃ p ∈ w.answered, r.completion answer = p.1.completion p.2 := by
  have hmem : r.completion answer ∈ w.completions r.call := List.mem_filter.mpr ⟨hc, by simp⟩
  obtain hflight | ⟨a, ha⟩ := hnum.accepted_cases r hr.1
  · rw [h.completions_inFlight r hflight trivial] at hmem
    cases hmem
  · rw [h.completions_answered _ ha trivial hr.2.2] at hmem
    exact ⟨(r, a), ha, List.mem_singleton.mp hmem⟩

/-- In an atomic run the entries are those of the requests in flight whose context was kept. -/
theorem Correlated.contextAt_iff (h : w.Correlated Set.univ) (hstoring : w.storing = [])
    (key : Kind × Int) (c : Context Nat) :
    w.imp.contextAt key = some c ↔
      ∃ r ∈ w.inFlight, r.call ∉ w.dropped ∧ r.key = key ∧ r.context = c := by
  rw [h.tracks key trivial c]
  constructor
  · rintro ⟨r, ⟨hr, _, hdropped⟩, hrest⟩
    exact ⟨r, hr, hdropped, hrest⟩
  · rintro ⟨r, hr, hdropped, hrest⟩
    exact ⟨r, ⟨hr, by simp [hstoring], hdropped⟩, hrest⟩

/-- Contexts of subscribes and unsubscribes are never dropped. -/
theorem Correlated.isSome_contextAt (h : w.Correlated Set.univ) (hnum : w.Numbered)
    (hstoring : w.storing = []) {kind : Kind} (hkind : kind ≠ .publish) (token : Int) :
    (w.imp.contextAt (kind, token)).isSome ↔
      ∃ r ∈ w.inFlight, r.token = token ∧ r.op.kind = kind := by
  rw [Option.isSome_iff_exists]
  constructor
  · rintro ⟨c, hc⟩
    obtain ⟨r, hr, _, hkey, _⟩ := (h.contextAt_iff hstoring _ c).mp hc
    exact ⟨r, hr, congrArg Prod.snd hkey, congrArg Prod.fst hkey⟩
  · rintro ⟨r, hr, rfl, rfl⟩
    have hkept := hnum.call_notMem_dropped (hnum.inFlight_accepted r hr) hkind
    exact ⟨r.context, (h.contextAt_iff hstoring _ _).mpr ⟨r, hr, hkept, rfl, rfl⟩⟩

theorem tokens_isolated (h : Runs.Reachable step AtomicRun (init bufferSize) w) :
    w.TokensIsolated := by
  have hstoring := storing_eq_nil (fun _ _ hallowed => hallowed.2) h
  obtain ⟨hnum, hcor⟩ := ledger_of_atomic Set.univ (fun _ _ hallowed => hallowed.2)
    (fun _ _ hallowed => hallowed.1.distinctOn) h
  constructor
  case subscribe_keys =>
    intro token
    rw [Imp.mem_subscribeContextMap]
    exact hcor.isSome_contextAt hnum hstoring (by decide) token
  case unsubscribe_keys =>
    intro token
    rw [Imp.mem_unsubscribeContextMap]
    exact hcor.isSome_contextAt hnum hstoring (by decide) token
  case publish_keys =>
    intro token hmem
    obtain ⟨c, hc⟩ := Option.isSome_iff_exists.mp (Imp.mem_publishContextMap.mp hmem)
    obtain ⟨r, hr, _, hkey, _⟩ := (hcor.contextAt_iff hstoring _ c).mp hc
    exact ⟨r, hr, congrArg Prod.snd hkey, congrArg Prod.fst hkey⟩
  case contexts_own =>
    intro kind token c hc
    obtain ⟨r, hr, _, hkey, rfl⟩ := (hcor.contextAt_iff hstoring _ c).mp hc
    exact ⟨r, hr, congrArg Prod.fst hkey, congrArg Prod.snd hkey, rfl⟩
  case answer_calls =>
    intro r hr answer
    have hlog : (w.answers r answer).log
        = w.log ++ (w.imp.answer r.op.kind r.token answer).2 := rfl
    rw [hlog, hcor.answer_eq trivial hr (by simp [hstoring])]
    split_ifs with hdropped
    · refine Or.inr ⟨?_, List.append_nil _⟩
      by_contra hkind
      exact hnum.call_notMem_dropped (hnum.inFlight_accepted r hr) hkind hdropped
    · exact Or.inl rfl
  case completed_once =>
    intro p hp hkind
    exact hcor.completions_answered p hp trivial
      (hnum.call_notMem_dropped (hnum.answered_accepted p hp).1 hkind)
  case published_once =>
    intro p hp _
    by_cases hdropped : p.1.call ∈ w.dropped
    · exact Or.inr (hcor.completions_dropped hdropped)
    · exact Or.inl (hcor.completions_answered p hp trivial hdropped)
  case in_flight_unreported => exact fun r hr => hcor.completions_inFlight r hr trivial
  case log_own =>
    intro c hc
    obtain ⟨r, hr, ⟨answer, rfl⟩ | hdelivery⟩ := hcor.log_reports c hc
    · exact Or.inl (hcor.completion_answered hnum hr hc)
    · exact Or.inr ⟨r, hr.1, hdelivery⟩
  case throw_unchanged => exact fun _ _ _ _ => Imp.perform_error

/-- Token 7 is reused by another kind of request after its first answer, and a publish beyond the
limit of zero contexts loses its context. -/
theorem tokens_isolated_reuse : ∃ w, Runs.Reachable step AtomicRun (init 0) w ∧
    w.answered.length = 3 ∧ w.dropped = [3] ∧ w.TokensIsolated := by
  let actions : List Action :=
    [.call (.subscribe (bytes "a/b") 1) (.accepted 7), .answer 0 (.success 1),
      .call (.unsubscribe (bytes "a/b")) (.accepted 7),
      .call (.publish (bytes "c") 1 [1, 2]) (.accepted 8),
      .call (.publish (bytes "d") 1 [3]) (.accepted 9), .answer 3 (.success 1), .delivered 8,
      .answer 1 .failure]
  let w := (Runs.run step AtomicRun (init 0) actions).get (by decide +kernel)
  have hw : Runs.Reachable step AtomicRun (init 0) w :=
    Runs.reachable_of_run (Option.some_get _).symm
  exact ⟨w, hw, by decide +kernel, by decide +kernel, tokens_isolated hw⟩

end Shapeware.Mqtt.Session
