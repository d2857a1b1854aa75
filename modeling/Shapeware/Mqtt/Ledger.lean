import Shapeware.Mqtt.Session

/-!
# Answers reach their own requests

The invariant behind the exactly-once properties: the table of contexts tracks the requests that are
in flight and stored, and the log of handler calls has one completion for each of them that has been
answered. It is relative to a set of tokens that requests in flight do not share, since the library
gives all messages of QoS 0 the same one.
-/

namespace Shapeware.Mqtt

open Correlation

namespace Session

variable {tokens : Set Int} {w w' : Session} {r : Request}

/-- The requests whose contexts have been stored. -/
def stored (w : Session) : Set Request :=
  {r | r ∈ w.accepted ∧ r ∉ w.storing ∧ r.call ∉ w.dropped}

/-- The requests whose contexts are to be found in the maps. -/
def retained (w : Session) : Set Request :=
  {r | r ∈ w.inFlight ∧ r ∉ w.storing ∧ r.call ∉ w.dropped}

/-- The table keys with one of the given tokens. -/
def keysOf (tokens : Set Int) : Set (Kind × Int) := {k | k.2 ∈ tokens}

/-- What is known of the requests themselves, before any token is looked at. -/
structure Numbered (w : Session) : Prop where
  call_lt : ∀ r ∈ w.accepted, r.call < w.calls
  call_inj : ∀ r ∈ w.accepted, ∀ r' ∈ w.accepted, r.call = r'.call → r = r'
  inFlight_accepted : ∀ r ∈ w.inFlight, r ∈ w.accepted
  storing_accepted : ∀ r ∈ w.storing, r ∈ w.accepted
  answered_accepted : ∀ p ∈ w.answered, p.1 ∈ w.accepted ∧ p.1 ∉ w.inFlight
  answered_nodup : (w.answered.map (·.1)).Nodup
  accepted_cases : ∀ r ∈ w.accepted, r ∈ w.inFlight ∨ ∃ answer, (r, answer) ∈ w.answered
  dropped_publish : ∀ n ∈ w.dropped, ∃ r ∈ w.accepted, r.call = n ∧ r.op.kind = .publish ∧
    r ∉ w.storing

/-- A handler call reports `r`: it is the completion of `r` or the delivery of its message. -/
def Reports (c : HandlerCall Nat) (r : Request) : Prop :=
  (∃ answer, c = r.completion answer) ∨
    ∃ topic qos msg, r.op = .publish topic qos msg ∧ c = .onDelivery r.call topic qos true

/-- The maps and the log, on the tokens that are not shared. -/
structure Correlated (tokens : Set Int) (w : Session) : Prop where
  distinct : Distinct tokens Request.token {r | r ∈ w.inFlight}
  storing_inFlight : ∀ r ∈ w.storing, r ∈ w.inFlight
  tracks : Tracks (keysOf tokens) Request.key Request.context w.imp.contextAt w.retained
  within : Within Request.key Request.context w.imp.contextAt w.stored
  log_reports : ∀ c ∈ w.log, ∃ r ∈ w.stored, Reports c r
  completions_answered : ∀ p ∈ w.answered, p.1.token ∈ tokens → p.1.call ∉ w.dropped →
    w.completions p.1.call = [p.1.completion p.2]
  completions_inFlight : ∀ r ∈ w.inFlight, r.token ∈ tokens → w.completions r.call = []

theorem numbered_init (bufferSize : Int) : (init bufferSize).Numbered := by
  constructor <;> simp [init]

theorem correlated_init (bufferSize : Int) : (init bufferSize).Correlated tokens := by
  have hempty : (init bufferSize).imp.contextAt = fun _ => none := by
    funext ⟨kind, token⟩
    cases kind <;> simp [init, Imp.contextAt]
  refine ⟨by simp [init, Distinct], by simp [init], ?_, hempty ▸ Within.empty, by simp [init],
    by simp [init], by simp [init]⟩
  rw [hempty]
  exact Tracks.empty.congr fun r _ => by simp [init, retained]

theorem Reports.hndl {c : HandlerCall Nat} (h : Reports c r) : c.hndl = r.call := by
  obtain ⟨answer, rfl⟩ | ⟨topic, qos, msg, _, rfl⟩ := h
  · exact Request.hndl_completion r answer
  · rfl

/-! ### The numbers of the requests -/

namespace Numbered

theorem accepts (h : w.Numbered) (token : Int) (op : Op) :
    (w.accepts ⟨w.calls, token, op⟩).Numbered where
  call_lt := by
    intro r hr
    obtain hr | rfl := by simpa [Session.accepts] using hr
    · exact Nat.lt_succ_of_lt (h.call_lt r hr)
    · exact Nat.lt_succ_self _
  call_inj := by
    intro r hr r' hr' heq
    obtain hr | rfl := by simpa [Session.accepts] using hr
    · obtain hr' | rfl := by simpa [Session.accepts] using hr'
      · exact h.call_inj r hr r' hr' heq
      · exact absurd heq (h.call_lt r hr).ne
    · obtain hr' | rfl := by simpa [Session.accepts] using hr'
      · exact absurd heq.symm (h.call_lt r' hr').ne
      · rfl
  inFlight_accepted := by
    intro r hr
    obtain hr | rfl := by simpa [Session.accepts] using hr
    · exact List.mem_append_left _ (h.inFlight_accepted r hr)
    · simp [Session.accepts]
  storing_accepted := by
    intro r hr
    obtain hr | rfl := by simpa [Session.accepts] using hr
    · exact List.mem_append_left _ (h.storing_accepted r hr)
    · simp [Session.accepts]
  answered_accepted := by
    intro p hp
    obtain ⟨hmem, hnot⟩ := h.answered_accepted p hp
    refine ⟨List.mem_append_left _ hmem, ?_⟩
    simp only [Session.accepts, List.mem_append, List.mem_singleton, not_or]
    exact ⟨hnot, fun heq => (h.call_lt _ hmem).ne (by rw [heq])⟩
  answered_nodup := h.answered_nodup
  accepted_cases := by
    intro r hr
    obtain hr | rfl := by simpa [Session.accepts] using hr
    · exact (h.accepted_cases r hr).imp_left (List.mem_append_left _)
    · exact Or.inl (by simp [Session.accepts])
  dropped_publish := by
    intro n hn
    obtain ⟨r, hr, rfl, hkind, hstoring⟩ := h.dropped_publish n hn
    refine ⟨r, List.mem_append_left _ hr, rfl, hkind, ?_⟩
    simp only [Session.accepts, List.mem_append, List.mem_singleton, not_or]
    exact ⟨hstoring, fun heq => (h.call_lt _ hr).ne (by rw [heq])⟩

theorem stores (h : w.Numbered) (hr : r ∈ w.storing) : (w.stores r).Numbered where
  call_lt := h.call_lt
  call_inj := h.call_inj
  inFlight_accepted := h.inFlight_accepted
  storing_accepted := fun r' hr' => h.storing_accepted r' (List.mem_of_mem_filter hr')
  answered_accepted := h.answered_accepted
  answered_nodup := h.answered_nodup
  accepted_cases := h.accepted_cases
  dropped_publish := by
    have hold : ∀ n ∈ w.dropped, ∃ r' ∈ w.accepted, r'.call = n ∧ r'.op.kind = .publish ∧
        r' ∉ (w.stores r).storing := by
      intro n hn
      obtain ⟨r', hr', hcall, hkind, hstoring⟩ := h.dropped_publish n hn
      exact ⟨r', hr', hcall, hkind, fun hmem => hstoring (List.mem_of_mem_filter hmem)⟩
    intro n hn
    by_cases hdrops : w.imp.drops r.op = true
    · obtain hn | rfl := by simpa [Session.stores, hdrops] using hn
      · exact hold n hn
      · refine ⟨r, h.storing_accepted r hr, rfl, ?_, by simp [Session.stores]⟩
        cases hop : r.op <;> simp_all [Imp.drops, Op.kind]
    · exact hold n (by simpa [Session.stores, hdrops] using hn)

theorem answers (h : w.Numbered) (hr : r ∈ w.inFlight) (answer : Answer) :
    (w.answers r answer).Numbered where
  call_lt := h.call_lt
  call_inj := h.call_inj
  inFlight_accepted := fun r' hr' => h.inFlight_accepted r' (List.mem_of_mem_filter hr')
  storing_accepted := h.storing_accepted
  answered_accepted := by
    intro p hp
    obtain hp | rfl := by simpa [Session.answers] using hp
    · obtain ⟨hmem, hnot⟩ := h.answered_accepted p hp
      exact ⟨hmem, fun hflight => hnot (List.mem_of_mem_filter hflight)⟩
    · exact ⟨h.inFlight_accepted r hr, by simp [Session.answers]⟩
  answered_nodup := by
    have hnot : r ∉ w.answered.map (·.1) := by
      intro hmem
      obtain ⟨p, hp, rfl⟩ := List.mem_map.mp hmem
      exact (h.answered_accepted p hp).2 hr
    have happend : ((w.answers r answer).answered.map (·.1)) = w.answered.map (·.1) ++ [r] := by
      simp [Session.answers]
    rw [happend, List.nodup_append]
    refine ⟨h.answered_nodup, List.nodup_singleton r, ?_⟩
    rintro a ha b hb rfl
    exact hnot (List.mem_singleton.mp hb ▸ ha)
  accepted_cases := by
    intro r' hr'
    by_cases heq : r' = r
    · subst heq
      exact Or.inr ⟨answer, by simp [Session.answers]⟩
    · refine (h.accepted_cases r' hr').imp ?_ ?_
      · intro hflight
        refine List.mem_filter.mpr ⟨hflight, ?_⟩
        simpa using fun hcall => heq (h.call_inj r' hr' r (h.inFlight_accepted r hr) hcall)
      · rintro ⟨a, ha⟩
        exact ⟨a, List.mem_append_left _ ha⟩
  dropped_publish := h.dropped_publish

end Numbered

/-! ### The maps and the log -/

theorem Numbered.call_ne (h : w.Numbered) {r' : Request} (hr : r ∈ w.accepted)
    (hr' : r' ∈ w.accepted) (hne : r' ≠ r) : r'.call ≠ r.call :=
  fun heq => hne (h.call_inj r' hr' r hr heq)

theorem completions_eq_nil {n : Nat} (h : ∀ c ∈ w.log, ∃ r ∈ w.stored, Reports c r)
    (hnot : ∀ r ∈ w.stored, r.call ≠ n) : w.completions n = [] := by
  refine List.filter_eq_nil_iff.mpr fun c hc => ?_
  obtain ⟨r, hr, hreports⟩ := h c hc
  simp [hreports.hndl, hnot r hr]

theorem completions_append {log : List (HandlerCall Nat)} {n : Nat}
    (hlog : w'.log = w.log ++ log) :
    w'.completions n = w.completions n ++ log.filter fun c => c.isCompletion && c.hndl == n := by
  rw [completions, hlog, List.filter_append, completions]

namespace Correlated

theorem accepts (h : w.Correlated tokens) (hnum : w.Numbered) {token : Int} (op : Op)
    (hfresh : token ∈ tokens → w.FreshToken token) :
    (w.accepts ⟨w.calls, token, op⟩).Correlated tokens := by
  have hnew : ∀ r ∈ w.accepted, r ≠ ⟨w.calls, token, op⟩ := by
    rintro r hr rfl
    exact (hnum.call_lt _ hr).ne rfl
  have hstored : w.stored ⊆ (w.accepts ⟨w.calls, token, op⟩).stored := by
    rintro r ⟨hr, hstoring, hdropped⟩
    refine ⟨List.mem_append_left _ hr, ?_, hdropped⟩
    simp only [Session.accepts, List.mem_append, List.mem_singleton, not_or]
    exact ⟨hstoring, hnew r hr⟩
  refine ⟨?_, ?_, ?_, h.within.mono hstored, ?_, h.completions_answered, ?_⟩
  · have hset : {r | r ∈ (w.accepts ⟨w.calls, token, op⟩).inFlight}
        = insert ⟨w.calls, token, op⟩ {r | r ∈ w.inFlight} := by
      ext r
      simp [Session.accepts, or_comm]
    rw [hset]
    exact h.distinct.insert fun htoken r hr => hfresh htoken r hr
  · intro r hr
    obtain hr | rfl := by simpa [Session.accepts] using hr
    · exact List.mem_append_left _ (h.storing_inFlight r hr)
    · simp [Session.accepts]
  · refine h.tracks.congr fun r _ => ?_
    simp only [retained, Session.accepts, List.mem_append, List.mem_singleton, Set.mem_ofPred_eq,
      not_or]
    constructor
    · rintro ⟨hr | rfl, ⟨hstoring, hne⟩, hdropped⟩
      · exact ⟨hr, hstoring, hdropped⟩
      · exact absurd rfl hne
    · rintro ⟨hr, hstoring, hdropped⟩
      exact ⟨Or.inl hr, ⟨hstoring, hnew r (hnum.inFlight_accepted r hr)⟩, hdropped⟩
  · intro c hc
    obtain ⟨r, hr, hreports⟩ := h.log_reports c hc
    exact ⟨r, hstored hr, hreports⟩
  · intro r hr htoken
    obtain hr | rfl := by simpa [Session.accepts] using hr
    · exact h.completions_inFlight r hr htoken
    · exact completions_eq_nil (w := w) h.log_reports
        fun r' hr' => (hnum.call_lt r' hr'.1).ne

theorem stores (h : w.Correlated tokens) (hnum : w.Numbered) (hr : r ∈ w.storing) :
    (w.stores r).Correlated tokens := by
  have hflight := h.storing_inFlight r hr
  have haccepted := hnum.storing_accepted r hr
  have hnotDropped : r.call ∉ w.dropped := by
    intro hmem
    obtain ⟨r', hr', hcall, _, hnot⟩ := hnum.dropped_publish _ hmem
    exact hnot (hnum.call_inj r' hr' r haccepted hcall ▸ hr)
  have hstoring : ∀ r' ∈ w.accepted, r' ∈ (w.stores r).storing ↔ r' ∈ w.storing ∧ r' ≠ r := by
    intro r' hr'
    simp only [Session.stores, List.mem_filter, decide_eq_true_eq, and_congr_right_iff]
    exact fun _ => ⟨fun hcall heq => hcall (heq ▸ rfl), hnum.call_ne haccepted hr'⟩
  have hold : ∀ r' ∈ w.stored, r' ≠ r := by
    rintro r' hr' rfl
    exact hr'.2.1 hr
  have hdropped : ∀ r' ∈ w.accepted, r' ≠ r →
      (r'.call ∈ (w.stores r).dropped ↔ r'.call ∈ w.dropped) := by
    intro r' hr' hne
    have hcall := hnum.call_ne haccepted hr' hne
    simp only [Session.stores]
    split_ifs <;> simp [hcall]
  have hstored : ∀ r' ∈ w.accepted, r' ≠ r → (r' ∈ (w.stores r).stored ↔ r' ∈ w.stored) := by
    intro r' hr' hne
    change r' ∈ w.accepted ∧ r' ∉ (w.stores r).storing ∧ r'.call ∉ (w.stores r).dropped
      ↔ r' ∈ w.accepted ∧ r' ∉ w.storing ∧ r'.call ∉ w.dropped
    rw [hstoring r' hr', hdropped r' hr' hne]
    simp [hne]
  have hsub : w.stored ⊆ (w.stores r).stored :=
    fun r' hr' => (hstored r' hr'.1 (hold r' hr')).mpr hr'
  have hretained : ∀ r' ∈ w.inFlight, r' ≠ r →
      (r' ∈ (w.stores r).retained ↔ r' ∈ w.retained) := by
    intro r' hr' hne
    have hacc := hnum.inFlight_accepted r' hr'
    change r' ∈ w.inFlight ∧ r' ∉ (w.stores r).storing ∧ r'.call ∉ (w.stores r).dropped
      ↔ r' ∈ w.inFlight ∧ r' ∉ w.storing ∧ r'.call ∉ w.dropped
    rw [hstoring r' hacc, hdropped r' hacc hne]
    simp [hne]
  refine ⟨h.distinct, fun r' hr' => h.storing_inFlight r' (List.mem_of_mem_filter hr'), ?_, ?_, ?_, ?_,
    h.completions_inFlight⟩
  · rw [show (w.stores r).imp.contextAt = _ from Imp.contextAt_store _ _ _ _]
    split_ifs with hdrops
    · refine h.tracks.congr fun r' _ => ?_
      by_cases hne : r' = r
      · subst hne
        exact iff_of_false (fun hmem => hmem.2.2 (by simp [Session.stores, hdrops]))
          fun hmem => hmem.2.1 hr
      · by_cases hr' : r' ∈ w.inFlight
        · exact hretained r' hr' hne
        · exact iff_of_false (fun hmem => hr' hmem.1) fun hmem => hr' hmem.1
    · have hfresh : r.key ∈ keysOf tokens → ∀ r' ∈ w.retained, r'.key ≠ r.key := by
        intro hkey r' hr' heq
        exact hr'.2.1 (h.distinct r hflight r' hr'.1 hkey (congrArg Prod.snd heq).symm ▸ hr)
      refine (h.tracks.update_some hfresh).congr fun r' _ => ?_
      by_cases hne : r' = r
      · subst hne
        refine iff_of_true ⟨hflight, ?_, ?_⟩ (Set.mem_insert _ _)
        · simp [hstoring r' haccepted]
        · simpa [Session.stores, hdrops] using hnotDropped
      · by_cases hr' : r' ∈ w.inFlight
        · rw [hretained r' hr' hne]
          simp [hne]
        · exact iff_of_false (fun hmem => hr' hmem.1) fun hmem =>
            (hmem.resolve_left hne).1 |> hr'
  · rw [show (w.stores r).imp.contextAt = _ from Imp.contextAt_store _ _ _ _]
    split_ifs with hdrops
    · exact h.within.mono hsub
    · refine (h.within.mono hsub).update_some ⟨haccepted, ?_, ?_⟩
      · simp [hstoring r haccepted]
      · simpa [Session.stores, hdrops] using hnotDropped
  · intro c hc
    obtain ⟨r', hr', hreports⟩ := h.log_reports c hc
    exact ⟨r', hsub hr', hreports⟩
  · intro p hp htoken hnot
    refine h.completions_answered p hp htoken fun hmem => hnot ?_
    simp only [Session.stores]
    split_ifs
    · exact List.mem_append_left _ hmem
    · exact hmem

theorem completions_dropped (h : w.Correlated tokens) {n : Nat} (hn : n ∈ w.dropped) :
    w.completions n = [] := by
  refine completions_eq_nil h.log_reports ?_
  rintro r hr rfl
  exact hr.2.2 hn

/-- Whatever an answer calls completes a stored request with the same token. -/
theorem answer_reports (h : w.Correlated tokens) (answer : Answer) {c : HandlerCall Nat}
    (hc : c ∈ (w.imp.answer r.op.kind r.token answer).2) :
    ∃ r' ∈ w.stored, r'.token = r.token ∧ c = r'.completion answer := by
  rw [Imp.answer_snd] at hc
  obtain ⟨context, hcontext, rfl⟩ := Option.map_eq_some_iff.mp (Option.mem_toList.mp hc)
  obtain ⟨r', hr', hkey, rfl⟩ := h.within _ _ hcontext
  exact ⟨r', hr', congrArg Prod.snd hkey, rfl⟩

/-- An answer under an unshared token calls the handler of the request it answers, and nothing if
the context was dropped. -/
theorem answer_eq (h : w.Correlated tokens) (htoken : r.token ∈ tokens) (hr : r ∈ w.inFlight)
    (hstored : r ∉ w.storing) (answer : Answer) :
    (w.imp.answer r.op.kind r.token answer).2
      = if r.call ∈ w.dropped then [] else [r.completion answer] := by
  rw [Imp.answer_snd]
  split_ifs with hdropped
  · have hnone : w.imp.contextAt r.key = none := by
      refine h.tracks.eq_none htoken fun r' hr' heq => ?_
      exact hr'.2.2 (h.distinct r hr r' hr'.1 htoken (congrArg Prod.snd heq).symm ▸ hdropped)
    rw [show (r.op.kind, r.token) = r.key from rfl, hnone]
    rfl
  · rw [show (r.op.kind, r.token) = r.key from rfl,
      h.tracks.eq_some (r := r) htoken ⟨hr, hstored, hdropped⟩]
    rfl

/-- The answer to one request is no completion of another one with an unshared token. -/
theorem answer_filter (h : w.Correlated tokens) (hnum : w.Numbered) (hr : r ∈ w.inFlight)
    (hstored : r ∉ w.storing) (answer : Answer) {r' : Request} (hr' : r' ∈ w.accepted)
    (htoken : r'.token ∈ tokens) (hne : r' ≠ r) :
    ((w.imp.answer r.op.kind r.token answer).2.filter
      fun c => c.isCompletion && c.hndl == r'.call) = [] := by
  refine List.filter_eq_nil_iff.mpr fun c hc => ?_
  by_cases hshared : r.token ∈ tokens
  · rw [h.answer_eq hshared hr hstored] at hc
    split_ifs at hc
    · cases hc
    · obtain rfl := List.mem_singleton.mp hc
      simpa using (hnum.call_ne (hnum.inFlight_accepted r hr) hr' hne).symm
  · obtain ⟨s, hs, hstoken, rfl⟩ := h.answer_reports answer hc
    have hns : s ≠ r' := fun heq => hshared (by rw [← hstoken, heq]; exact htoken)
    simpa using hnum.call_ne hr' hs.1 hns

theorem answers (h : w.Correlated tokens) (hnum : w.Numbered) (hr : r ∈ w.inFlight)
    (hstored : r ∉ w.storing) (answer : Answer) :
    (w.answers r answer).Correlated tokens := by
  have haccepted := hnum.inFlight_accepted r hr
  have hflight : ∀ r' ∈ w.accepted, r' ∈ (w.answers r answer).inFlight ↔
      r' ∈ w.inFlight ∧ r' ≠ r := by
    intro r' hr'
    simp only [Session.answers, List.mem_filter, decide_eq_true_eq, and_congr_right_iff]
    exact fun _ => ⟨fun hcall heq => hcall (heq ▸ rfl), hnum.call_ne haccepted hr'⟩
  have hcompletions : ∀ r' ∈ w.accepted, r'.token ∈ tokens → r' ≠ r →
      (w.answers r answer).completions r'.call = w.completions r'.call := by
    intro r' hr' htoken hne
    rw [completions_append (w := w) rfl, h.answer_filter hnum hr hstored answer hr' htoken hne,
      List.append_nil]
  refine ⟨h.distinct.mono fun r' hr' => List.mem_of_mem_filter hr', ?_, ?_, ?_, ?_, ?_, ?_⟩
  · intro r' hr'
    exact (hflight r' (hnum.storing_accepted r' hr')).mpr
      ⟨h.storing_inFlight r' hr', fun heq => hstored (heq ▸ hr')⟩
  · rw [show (w.answers r answer).imp.contextAt = _ from Imp.contextAt_answer _ _ _ _]
    refine (h.tracks.update_none r.key).congr fun r' hkey => ?_
    change r' ∈ (w.answers r answer).inFlight ∧ r' ∉ w.storing ∧ r'.call ∉ w.dropped
      ↔ (r' ∈ w.inFlight ∧ r' ∉ w.storing ∧ r'.call ∉ w.dropped) ∧ r'.key ≠ r.key
    constructor
    · rintro ⟨hmem, hrest⟩
      have hr' := List.mem_of_mem_filter hmem
      have hne := ((hflight r' (hnum.inFlight_accepted r' hr')).mp hmem).2
      exact ⟨⟨hr', hrest⟩, fun heq =>
        hne (h.distinct r' hr' r hr hkey (congrArg Prod.snd heq))⟩
    · rintro ⟨⟨hr', hrest⟩, hne⟩
      exact ⟨(hflight r' (hnum.inFlight_accepted r' hr')).mpr
        ⟨hr', fun heq => hne (heq ▸ rfl)⟩, hrest⟩
  · rw [show (w.answers r answer).imp.contextAt = _ from Imp.contextAt_answer _ _ _ _]
    exact h.within.update_none r.key
  · intro c hc
    obtain hc | hc := List.mem_append.mp hc
    · exact h.log_reports c hc
    · obtain ⟨r', hr', _, rfl⟩ := h.answer_reports answer hc
      exact ⟨r', hr', Or.inl ⟨answer, rfl⟩⟩
  · intro p hp htoken hnot
    obtain hp | rfl := by simpa [Session.answers] using hp
    · obtain ⟨hmem, hnotFlight⟩ := hnum.answered_accepted p hp
      rw [hcompletions p.1 hmem htoken fun heq => hnotFlight (heq ▸ hr)]
      exact h.completions_answered p hp htoken hnot
    · rw [completions_append (w := w) rfl, h.completions_inFlight r hr htoken,
        h.answer_eq htoken hr hstored, if_neg (show r.call ∉ w.dropped from hnot)]
      simp
  · intro r' hr' htoken
    have hmem := List.mem_of_mem_filter hr'
    have hacc := hnum.inFlight_accepted r' hmem
    rw [hcompletions r' hacc htoken ((hflight r' hacc).mp hr').2]
    exact h.completions_inFlight r' hmem htoken

theorem delivered (h : w.Correlated tokens) (token : Int) :
    Correlated tokens { w with log := w.log ++ w.imp.delivered token } := by
  have hreports : ∀ c ∈ w.imp.delivered token, ∃ r ∈ w.stored,
      ∃ topic qos msg, r.op = .publish topic qos msg ∧ c = .onDelivery r.call topic qos true := by
    intro c hc
    rw [Imp.delivered_eq] at hc
    obtain ⟨pc, hpc, rfl⟩ := Option.map_eq_some_iff.mp (Option.mem_toList.mp hc)
    obtain ⟨r, hr, hkey, hcontext⟩ := h.within _ _ (Imp.contextAt_publish.mpr hpc)
    refine ⟨r, hr, ?_⟩
    obtain ⟨n, t, op⟩ := r
    cases op with
    | publish topic qos msg =>
        obtain rfl := Context.publish.inj hcontext
        exact ⟨topic, qos, msg, rfl, rfl⟩
    | subscribe topic qos => cases hcontext
    | unsubscribe topic => cases hcontext
  have hcompletions : ∀ n, Session.completions { w with log := w.log ++ w.imp.delivered token } n
      = w.completions n := by
    intro n
    rw [completions_append (w := w) rfl]
    refine List.append_right_eq_self.mpr (List.filter_eq_nil_iff.mpr fun c hc => ?_)
    obtain ⟨r, _, topic, qos, msg, _, rfl⟩ := hreports c hc
    simp [HandlerCall.isCompletion]
  refine ⟨h.distinct, h.storing_inFlight, h.tracks, h.within, ?_, ?_, ?_⟩
  · intro c hc
    obtain hc | hc := List.mem_append.mp hc
    · exact h.log_reports c hc
    · obtain ⟨r, hr, hrest⟩ := hreports c hc
      exact ⟨r, hr, Or.inr hrest⟩
  · intro p hp htoken hnot
    rw [hcompletions]
    exact h.completions_answered p hp htoken hnot
  · intro r hr htoken
    rw [hcompletions]
    exact h.completions_inFlight r hr htoken

end Correlated

/-! ### Runs -/

/-- Among the given tokens, requests in flight have distinct ones. -/
def DistinctOn (tokens : Set Int) (w : Session) : Action → Prop
  | .call _ (.accepted token) => token ∈ tokens → w.FreshToken token
  | .accept _ token => token ∈ tokens → w.FreshToken token
  | _ => True

theorem DistinctTokens.distinctOn {a : Action} (h : w.DistinctTokens a) :
    w.DistinctOn tokens a := by
  unfold DistinctOn
  split <;> first | exact fun _ => h | trivial

/-- Whatever the library does, the requests are numbered. -/
theorem Numbered.step (h : w.Numbered) {a : Action} (hstep : w.step a = some w') : w'.Numbered := by
  obtain ⟨op, retval, outcome, rfl, rfl⟩ | ⟨op, token, rfl, rfl⟩ | ⟨op, token, rfl, rfl⟩ |
    ⟨r, hr, rfl, rfl⟩ | ⟨r, hr, answer, rfl, rfl⟩ | ⟨token, rfl, rfl⟩ := step_cases hstep
  · exact ⟨fun r hr => Nat.lt_succ_of_lt (h.call_lt r hr), h.call_inj, h.inFlight_accepted,
      h.storing_accepted, h.answered_accepted, h.answered_nodup, h.accepted_cases, h.dropped_publish⟩
  · exact (h.accepts token op).stores (by simp [Session.accepts])
  · exact h.accepts token op
  · exact h.stores hr
  · exact h.answers hr answer
  · exact ⟨h.call_lt, h.call_inj, h.inFlight_accepted, h.storing_accepted, h.answered_accepted,
      h.answered_nodup, h.accepted_cases, h.dropped_publish⟩

/-- **The ledger.** While answers wait for the contexts to be stored, the maps and the log are in
step with the requests in every reachable state. -/
theorem ledger (tokens : Set Int) {bufferSize : Int}
    (h : Runs.Reachable step (fun w a => w.DistinctOn tokens a ∧ w.AnswerAfterStore a)
      (init bufferSize) w) : w.Numbered ∧ w.Correlated tokens := by
  refine h.invariant (fun w => w.Numbered ∧ w.Correlated tokens)
    ⟨numbered_init bufferSize, correlated_init bufferSize⟩ ?_
  rintro w a w' ⟨hnum, hcor⟩ ⟨hdistinct, hafter⟩ hstep
  refine ⟨hnum.step hstep, ?_⟩
  obtain ⟨op, retval, outcome, rfl, rfl⟩ | ⟨op, token, rfl, rfl⟩ | ⟨op, token, rfl, rfl⟩ |
    ⟨r, hr, rfl, rfl⟩ | ⟨r, hr, answer, rfl, rfl⟩ | ⟨token, rfl, rfl⟩ := step_cases hstep
  · exact ⟨hcor.distinct, hcor.storing_inFlight, hcor.tracks, hcor.within, hcor.log_reports,
      hcor.completions_answered, hcor.completions_inFlight⟩
  · exact (hcor.accepts hnum op hdistinct).stores (hnum.accepts token op) (by simp [accepts])
  · exact hcor.accepts hnum op hdistinct
  · exact hcor.stores hnum hr
  · exact hcor.answers hnum hr (fun hmem => hafter r hmem rfl) answer
  · exact hcor.delivered token

theorem storing_eq_nil {allowed : Session → Action → Prop} {bufferSize : Int}
    (hatomic : ∀ w a, allowed w a → AtomicStore a)
    (h : Runs.Reachable step allowed (init bufferSize) w) : w.storing = [] := by
  refine h.invariant (fun w => w.storing = []) rfl ?_
  intro w a w' hnil hallowed hstep
  obtain ⟨op, retval, outcome, rfl, rfl⟩ | ⟨op, token, rfl, rfl⟩ | ⟨op, token, rfl, rfl⟩ |
    ⟨r, hr, rfl, rfl⟩ | ⟨r, hr, answer, rfl, rfl⟩ | ⟨token, rfl, rfl⟩ := step_cases hstep
  · exact hnil
  · simp [accepts, stores, hnil]
  · exact absurd (hatomic _ _ hallowed) id
  · simp [hnil] at hr
  · exact hnil
  · exact hnil

theorem ledger_of_atomic (tokens : Set Int) {allowed : Session → Action → Prop} {bufferSize : Int}
    (hatomic : ∀ w a, allowed w a → AtomicStore a)
    (hdistinct : ∀ w a, allowed w a → w.DistinctOn tokens a)
    (h : Runs.Reachable step allowed (init bufferSize) w) : w.Numbered ∧ w.Correlated tokens := by
  have hordered : Runs.Reachable step (fun w a => w.DistinctOn tokens a ∧ w.AnswerAfterStore a)
      (init bufferSize) w := by
    induction h with
    | refl => exact .refl
    | @tail s t a hbefore hallowed hs ih =>
        refine .tail a ih ⟨hdistinct s a hallowed, ?_⟩ hs
        have hnil := storing_eq_nil hatomic hbefore
        unfold AnswerAfterStore
        split
        · simp [hnil]
        · trivial
  exact ledger tokens hordered

end Session

end Shapeware.Mqtt
