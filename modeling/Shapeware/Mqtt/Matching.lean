import Shapeware.Library.Levels
import Shapeware.Mqtt.Dispatch
import Shapeware.Mqtt.Session

/-!
# Dispatch against the matching rule of MQTT

Each of the three comparisons of `msgarrvd` decides one kind of valid filter: without wildcards,
with a trailing `#`, with a `+`. So no two of them call the same handler, and none calls it for a
topic its filter does not match. What they miss is the parent level of `#`, and every filter with
wildcards of both kinds.
-/

namespace Shapeware.Mqtt

open Levels

variable {H : Type} {f t msg : StdString} {hndl : H}

/-- The wildcard language of MQTT topic filters. -/
def topicGrammar : Grammar UInt8 where
  sep := '/'.toUInt8
  single := '+'.toUInt8
  multi := '#'.toUInt8
  single_ne_sep := by decide
  multi_ne_sep := by decide
  single_ne_multi := by decide

/-- The matching filters for which no comparison succeeds. -/
def Missed (f t : StdString) : Prop :=
  '+'.toUInt8 ∈ f ∧ '#'.toUInt8 ∈ f ∨ f = t ++ ['/'.toUInt8, '#'.toUInt8]

/-! ### What the comparisons test -/

def HashHit (f t : StdString) : Prop := f.getLast? = some '#'.toUInt8 ∧ f.dropLast <+: t

def PlusHit (f t : StdString) : Prop :=
  '+'.toUInt8 ∈ f ∧ List.Forall₂ (fun l n => l = ['+'.toUInt8] ∨ l = n)
    (topicGrammar.levels f) (topicGrammar.levels t)

/-- Over as many tokens as the topic has, the walk succeeds when every token of the filter is a `+`
or that of the topic. -/
theorem tokenWalk_spec {vect1 vect2 : List StdString} (hlength : vect1.length = vect2.length) :
    ∃ found, tokenWalk vect1 vect2 = .ok found ∧
      (found = true ↔ List.Forall₂ (fun l n => l = ['+'.toUInt8] ∨ l = n) vect2 vect1) := by
  induction vect2 generalizing vect1 with
  | nil =>
      obtain rfl := List.length_eq_zero_iff.mp hlength
      exact ⟨true, rfl, by simp⟩
  | cons token2 vect2 ih =>
      obtain ⟨token1, vect1, rfl⟩ := List.exists_cons_of_length_eq_add_one hlength
      obtain ⟨found, hwalk, hfound⟩ := ih (Nat.succ.inj hlength)
      rw [tokenWalk]
      split_ifs with hplus heq
      · exact ⟨found, hwalk, by simp [hfound, hplus]⟩
      · exact ⟨false, rfl, by simp [hplus, heq]⟩
      · exact ⟨found, hwalk, by simp [hfound, not_not.mp heq]⟩

theorem plusWildcard_spec (f t : StdString) :
    ∃ found, plusWildcard t f = .ok found ∧ (found = true ↔ PlusHit f t) := by
  rw [plusWildcard]
  split_ifs with hplus
  · simp only [tokenizeTopic_eq]
    split_ifs with hlength
    · obtain ⟨found, hwalk, hfound⟩ := tokenWalk_spec hlength
      exact ⟨found, hwalk, hfound.trans (by simp [PlusHit, hplus, Grammar.levels, topicGrammar])⟩
    · refine ⟨false, rfl, iff_of_false Bool.false_ne_true ?_⟩
      rintro ⟨_, hforall⟩
      exact hlength hforall.length_eq.symm
  · exact ⟨false, rfl, by simp [PlusHit, hplus]⟩

theorem hashWildcard_spec (hne : f ≠ []) (t : StdString) :
    ∃ found, hashWildcard t f = .ok found ∧ (found = true ↔ HashHit f t) := by
  have hlast := List.getLast?_eq_some_getLast hne
  have hbefore : f.dropLast <+: t ↔ f.take (f.length - 1) = t.take (f.length - 1) := by
    rw [List.prefix_iff_eq_take, List.length_dropLast, List.dropLast_eq_take]
  exact ⟨_, by rw [hashWildcard, hlast], by simp [HashHit, hlast, hbefore]⟩

/-! ### What the tests mean for a valid filter -/

theorem equal_iff (hplain : topicGrammar.Plain t) :
    f = t ↔ topicGrammar.Plain f ∧ topicGrammar.Matches f t := by
  constructor
  · rintro rfl
    exact ⟨hplain, hplain.matches_iff.mpr rfl⟩
  · rintro ⟨hf, hmatch⟩
    exact hf.matches_iff.mp hmatch

/-- Below a parent, the `#` branch misses the parent itself. -/
theorem parent_prefix_iff {p : StdString} :
    p ++ [topicGrammar.sep] <+: t ↔ (t = p ∨ p ++ [topicGrammar.sep] <+: t) ∧ p ≠ t := by
  constructor
  · intro hbefore
    refine ⟨Or.inr hbefore, ?_⟩
    rintro rfl
    simpa using hbefore.length_le
  · rintro ⟨heq | hbefore, hne⟩
    · exact absurd heq.symm hne
    · exact hbefore

/-- The `#` branch takes what a filter with a trailing `#` matches, unless it is missed. -/
theorem hashHit_iff (hvalid : topicGrammar.Valid f) (hplain : topicGrammar.Plain t) :
    HashHit f t ↔ '#'.toUInt8 ∈ f ∧ topicGrammar.Matches f t ∧ ¬Missed f t := by
  by_cases hhash : '#'.toUInt8 ∈ f
  · obtain rfl | ⟨p, rfl, hp⟩ := hvalid.multi_cases hhash
    · refine iff_of_true ⟨rfl, List.nil_prefix⟩ ⟨hhash, Grammar.matches_multi, ?_⟩
      rintro (⟨hplus, _⟩ | hparent)
      · exact absurd hplus (by decide)
      · simpa using congrArg List.length hparent
    · have hhit : HashHit (p ++ [topicGrammar.sep, topicGrammar.multi]) t ↔
          p ++ [topicGrammar.sep] <+: t := by
        have hdrop : (p ++ [topicGrammar.sep, topicGrammar.multi]).dropLast
            = p ++ [topicGrammar.sep] := by simp
        rw [HashHit, hdrop]
        exact and_iff_right (by simp [topicGrammar])
      have hplus : '+'.toUInt8 ∈ p ++ [topicGrammar.sep, topicGrammar.multi] ↔
          '+'.toUInt8 ∈ p := by
        rw [List.mem_append]
        exact or_iff_left (by decide)
      rw [hhit]
      by_cases hmem : '+'.toUInt8 ∈ p
      · refine iff_of_false (fun hbefore => ?_) fun h => h.2.2 (Or.inl ⟨hplus.mpr hmem, hhash⟩)
        exact hplain.single_notMem (hbefore.subset (List.mem_append_left _ hmem))
      · have hparent : topicGrammar.Plain p := ⟨hmem, hp⟩
        have hmissed : Missed (p ++ [topicGrammar.sep, topicGrammar.multi]) t ↔ p = t := by
          rw [Missed, hplus]
          exact (or_iff_right fun h => hmem h.1).trans (List.append_left_inj _)
        rw [hparent.matches_multi_iff, hmissed, and_iff_right hhash]
        exact parent_prefix_iff
  · refine iff_of_false ?_ fun h => hhash h.1
    rintro ⟨hlast, _⟩
    exact hhash (List.mem_of_getLast? hlast)

/-- The `+` branch takes what a filter with `+` and without `#` matches. -/
theorem plusHit_iff (hvalid : topicGrammar.Valid f) (hplain : topicGrammar.Plain t) :
    PlusHit f t ↔ '#'.toUInt8 ∉ f ∧ '+'.toUInt8 ∈ f ∧ topicGrammar.Matches f t := by
  by_cases hhash : '#'.toUInt8 ∈ f
  · refine iff_of_false ?_ fun h => h.1 hhash
    rintro ⟨_, hforall⟩
    -- the walk compares the level `#` with a level of the topic
    obtain ⟨l, hl, hmem⟩ := (Grammar.multi_mem_iff (G := topicGrammar)).mp hhash
    obtain rfl := hvalid.multi_alone l hl hmem
    obtain ⟨n, hn, hplus | rfl⟩ := exists_of_forall₂ hforall hl
    · exact absurd hplus (by decide)
    · exact hplain.multi_notMem (Grammar.multi_mem_iff.mpr ⟨_, hn, hmem⟩)
  · rw [Grammar.matches_iff_forall₂ (G := topicGrammar) hhash]
    simp [PlusHit, hhash, topicGrammar]

theorem not_missed (hhash : '#'.toUInt8 ∉ f) : ¬Missed f t := by
  rintro (h | rfl)
  · exact hhash h.2
  · simp at hhash

/-! ### One entry -/

/-- For a valid filter, the three comparisons together make one call or none. -/
theorem entryCalls_eq (hvalid : topicGrammar.Valid f) (hplain : topicGrammar.Plain t)
    (msg : StdString) (hndl : H) :
    ∃ calls, entryCalls t msg f hndl = .ok calls ∧
      ((topicGrammar.Matches f t ∧ ¬Missed f t) ∧ calls = [⟨f, hndl, t, msg⟩] ∨
        ¬(topicGrammar.Matches f t ∧ ¬Missed f t) ∧ calls = []) := by
  obtain ⟨hash, hhash, hhashHit⟩ := hashWildcard_spec hvalid.ne_nil t
  obtain ⟨plus, hplus, hplusHit⟩ := plusWildcard_spec f t
  rw [hashHit_iff hvalid hplain] at hhashHit
  rw [plusHit_iff hvalid hplain] at hplusHit
  have hequal := equal_iff (f := f) hplain
  refine ⟨_, by rw [entryCalls, hhash, hplus]; rfl, ?_⟩
  by_cases hmulti : '#'.toUInt8 ∈ f
  · have hne : f ≠ t := fun heq => (hequal.mp heq).1.multi_notMem hmulti
    obtain rfl : plus = false := Bool.eq_false_iff.mpr fun h => (hplusHit.mp h).1 hmulti
    rw [and_iff_right hmulti] at hhashHit
    cases hash with
    | true => exact Or.inl ⟨hhashHit.mp rfl, by simp [hne]⟩
    | false => exact Or.inr ⟨fun h => Bool.false_ne_true (hhashHit.mpr h), by simp [hne]⟩
  · have hmissed : ¬Missed f t := not_missed hmulti
    obtain rfl : hash = false := Bool.eq_false_iff.mpr fun h => hmulti (hhashHit.mp h).1
    rw [and_iff_right hmulti] at hplusHit
    by_cases hsingle : '+'.toUInt8 ∈ f
    · have hne : f ≠ t := fun heq => (hequal.mp heq).1.single_notMem hsingle
      rw [and_iff_right hsingle] at hplusHit
      cases plus with
      | true => exact Or.inl ⟨⟨hplusHit.mp rfl, hmissed⟩, by simp [hne]⟩
      | false => exact Or.inr ⟨fun h => Bool.false_ne_true (hplusHit.mpr h.1), by simp [hne]⟩
    · obtain rfl : plus = false := Bool.eq_false_iff.mpr fun h => hsingle (hplusHit.mp h).1
      by_cases heq : f = t
      · exact Or.inl ⟨⟨(hequal.mp heq).2, hmissed⟩, by simp [heq]⟩
      · exact Or.inr ⟨fun h => heq (hequal.mpr ⟨⟨hsingle, hmulti⟩, h.1⟩), by simp [heq]⟩

/-- Whatever the filter, what is called is its own handler, with the topic and the message as they
came. Only an empty filter makes `msgarrvd` read outside of a string. -/
theorem entryCalls_own (hne : f ≠ []) (t msg : StdString) (hndl : H) :
    ∃ calls, entryCalls t msg f hndl = .ok calls ∧
      ∀ c ∈ calls, c = (⟨f, hndl, t, msg⟩ : MessageCall H) := by
  obtain ⟨hash, hhash, _⟩ := hashWildcard_spec hne t
  obtain ⟨plus, hplus, _⟩ := plusWildcard_spec f t
  refine ⟨_, by rw [entryCalls, hhash, hplus]; rfl, fun c hc => ?_⟩
  obtain (⟨_, hc⟩ | ⟨_, hc⟩) | ⟨_, hc⟩ := by
    simpa only [List.mem_append, List.mem_ite_nil_right, List.mem_singleton] using hc
  all_goals exact hc

theorem entryCalls_nil (t msg : StdString) (hndl : H) :
    entryCalls t msg [] hndl = .error .outOfRange := rfl

/-! ### The whole map -/

theorem dispatch_cons {calls : List (MessageCall H)} {rest : List (StdString × H)}
    (h : entryCalls t msg f hndl = .ok calls) :
    dispatch t msg ((f, hndl) :: rest) = (dispatch t msg rest).map (calls ++ ·) := by
  rw [dispatch, h]
  cases dispatch t msg rest <;> rfl

theorem dispatch_spec (t msg : StdString) {entries : List (StdString × H)}
    (hne : ∀ e ∈ entries, e.1 ≠ []) :
    ∃ calls, dispatch t msg entries = .ok calls ∧ ∀ c, c ∈ calls ↔
      ∃ e ∈ entries, ∃ own, entryCalls t msg e.1 e.2 = .ok own ∧ c ∈ own := by
  induction entries with
  | nil => exact ⟨[], rfl, by simp⟩
  | cons e entries ih =>
      obtain ⟨others, hothers, hmem⟩ := ih fun e' he' => hne e' (List.mem_cons_of_mem _ he')
      obtain ⟨own, hown, _⟩ := entryCalls_own (hne e List.mem_cons_self) t msg e.2
      refine ⟨own ++ others, by rw [dispatch_cons hown, hothers]; rfl, fun c => ?_⟩
      simp [hmem, hown]

theorem dispatch_of_empty_mem {entries : List (StdString × H)} (hmem : ([], hndl) ∈ entries)
    (calls : List (MessageCall H)) : dispatch t msg entries ≠ .ok calls := by
  induction entries generalizing calls with
  | nil => cases hmem
  | cons e entries ih =>
      intro hok
      by_cases hne : e.1 = []
      · rw [dispatch, hne, entryCalls_nil] at hok
        cases hok
      · obtain ⟨own, hown, _⟩ := entryCalls_own hne t msg e.2
        obtain rfl | hrest := List.mem_cons.mp hmem
        · exact hne rfl
        · rw [dispatch_cons hown] at hok
          cases hothers : dispatch t msg entries with
          | error fault => simp [hothers, Except.map] at hok
          | ok others => exact ih hrest others hothers

open scoped Classical in
/-- With valid filters only, the entries that are matched and not missed make one call each. -/
theorem dispatch_eq (hplain : topicGrammar.Plain t) {entries : List (StdString × H)}
    (hvalid : ∀ e ∈ entries, topicGrammar.Valid e.1) :
    dispatch t msg entries
      = .ok ((entries.filter fun e => topicGrammar.Matches e.1 t ∧ ¬Missed e.1 t).map
          fun e => ⟨e.1, e.2, t, msg⟩) := by
  induction entries with
  | nil => rfl
  | cons e entries ih =>
      have hrest := ih fun e' he' => hvalid e' (List.mem_cons_of_mem _ he')
      obtain ⟨own, hown, ⟨hreached, rfl⟩ | ⟨hreached, rfl⟩⟩ :=
        entryCalls_eq (hvalid e List.mem_cons_self) hplain msg e.2
      · rw [dispatch_cons hown, hrest, List.filter_cons_of_pos (by simpa using hreached)]
        rfl
      · rw [dispatch_cons hown, hrest, List.filter_cons_of_neg (by simpa using hreached)]
        rfl

theorem mem_of_mem_toList {map : StdMap StdString H} {e : StdString × H} (he : e ∈ map.toList) :
    e.1 ∈ map := by
  rw [Std.ExtTreeMap.mem_iff_isSome_getElem?, Option.isSome_iff_exists]
  exact ⟨e.2, Std.ExtTreeMap.mem_toList_iff_getElem?_eq_some.mp he⟩

namespace Imp

variable {s : Imp H} {topicName payload : List UInt8} {topicLen : Int}

/-- **Dispatch is complete** but for three cases: the handler of a valid filter is called for a topic
it matches exactly when no empty filter is registered, the filter has not both wildcards, and the
topic is not the parent level of its `#`. -/
theorem msgarrvd_complete_iff (hhndl : s.onMessageHndlMap[f]? = some hndl)
    (hvalid : topicGrammar.Valid f) (ht : receivedTopic topicName topicLen = t)
    (hplain : topicGrammar.Plain t) (hmatch : topicGrammar.Matches f t) :
    (∃ calls, s.msgarrvd topicName topicLen payload = .ok calls ∧
        ⟨f, hndl, t, payload⟩ ∈ calls) ↔
      [] ∉ s.onMessageHndlMap ∧ ¬('+'.toUInt8 ∈ f ∧ '#'.toUInt8 ∈ f) ∧
        f ≠ t ++ ['/'.toUInt8, '#'.toUInt8] := by
  have hentry : (f, hndl) ∈ s.onMessageHndlMap.toList :=
    Std.ExtTreeMap.mem_toList_iff_getElem?_eq_some.mpr hhndl
  rw [msgarrvd, ht, ← not_or]
  change _ ↔ _ ∧ ¬Missed f t
  by_cases hempty : [] ∈ s.onMessageHndlMap
  · refine iff_of_false ?_ fun h => h.1 hempty
    rintro ⟨calls, hok, _⟩
    obtain ⟨hndl', hhndl'⟩ := Option.isSome_iff_exists.mp (Std.ExtTreeMap.mem_iff_isSome_getElem?.mp hempty)
    exact dispatch_of_empty_mem
      (Std.ExtTreeMap.mem_toList_iff_getElem?_eq_some.mpr hhndl') calls hok
  · have hne : ∀ e ∈ s.onMessageHndlMap.toList, e.1 ≠ [] := by
      rintro ⟨f', hndl'⟩ he rfl
      exact hempty (mem_of_mem_toList he)
    obtain ⟨calls, hok, hmem⟩ := dispatch_spec t payload hne
    obtain ⟨own, hown, hreached⟩ := entryCalls_eq hvalid hplain payload hndl
    have hcalled : ⟨f, hndl, t, payload⟩ ∈ calls ↔ ⟨f, hndl, t, payload⟩ ∈ own := by
      rw [hmem]
      constructor
      · rintro ⟨⟨f', hndl'⟩, he, own', hown', hc⟩
        obtain ⟨_, hown'', hall⟩ := entryCalls_own (hne _ he) t payload hndl'
        obtain rfl := Except.ok.inj (hown'.symm.trans hown'')
        obtain ⟨rfl, rfl⟩ : f = f' ∧ hndl = hndl' := by simpa using hall _ hc
        rwa [← Except.ok.inj (hown'.symm.trans hown)]
      · exact fun hc => ⟨(f, hndl), hentry, own, hown, hc⟩
    have hexists : (∃ calls, dispatch t payload s.onMessageHndlMap.toList = .ok calls ∧
        ⟨f, hndl, t, payload⟩ ∈ calls) ↔ ⟨f, hndl, t, payload⟩ ∈ own := by
      rw [← hcalled]
      constructor
      · rintro ⟨calls', hok', hc⟩
        rwa [Except.ok.inj (hok.symm.trans hok')]
      · exact fun hc => ⟨calls, hok, hc⟩
    rw [hexists, and_iff_right hempty]
    obtain ⟨⟨_, hmissed⟩, rfl⟩ | ⟨hmissed, rfl⟩ := hreached
    · exact iff_of_true (List.mem_singleton_self _) hmissed
    · exact iff_of_false (by simp) fun h => hmissed ⟨hmatch, h⟩

/-- A filter with empty levels and a `+` is reached, next to one that matches everything. -/
theorem msgarrvd_complete_plus :
    let s : Imp Nat :=
      { client := true
        onMessageHndlMap := Std.ExtTreeMap.insert (.insert ∅ (bytes "#") 0) (bytes "/+/") 1 }
    ∃ calls, s.msgarrvd (bytes "/b/") 0 [1, 2] = .ok calls ∧
      ⟨bytes "/+/", 1, bytes "/b/", [1, 2]⟩ ∈ calls :=
  (msgarrvd_complete_iff (by decide +kernel) (by decide +kernel) (by decide +kernel)
    (by decide +kernel) ((Grammar.matches_iff_forall₂ (by decide +kernel)).mpr
      (by decide +kernel))).mpr (by decide +kernel)

/-- A subscription to `a/#` does not get the messages of `a`. -/
theorem parent_level_is_missed :
    ¬ ∀ w, Runs.Reachable Session.step Session.AtomicRun (.init 10) w →
      ∀ f hndl, w.imp.onMessageHndlMap[f]? = some hndl → topicGrammar.Valid f →
        ∀ topicName topicLen, topicGrammar.Plain (receivedTopic topicName topicLen) →
          topicGrammar.Matches f (receivedTopic topicName topicLen) → ∀ payload,
            ∃ calls, w.imp.msgarrvd topicName topicLen payload = .ok calls ∧
              ⟨f, hndl, receivedTopic topicName topicLen, payload⟩ ∈ calls := by
  refine Runs.not_forall_reachable [.call (.subscribe (bytes "a/#") 1) (.accepted 1)]
    ⟨_, Option.get_mem (by decide +kernel), fun h => ?_⟩
  have hparent : topicGrammar.Plain (bytes "a") := by decide +kernel
  have htopic : receivedTopic (bytes "a") 0 = bytes "a" := by decide +kernel
  have hfilter : bytes "a/#" = bytes "a" ++ [topicGrammar.sep, topicGrammar.multi] := by
    decide +kernel
  have hmatch : topicGrammar.Matches (bytes "a/#") (bytes "a") := by
    rw [hfilter]
    exact hparent.matches_multi_iff.mpr (Or.inl rfl)
  obtain ⟨calls, hok, hmem⟩ := h (bytes "a/#") 0 (by decide +kernel) (by decide +kernel) (bytes "a")
    0 (by rwa [htopic]) (by rwa [htopic]) []
  obtain rfl : [] = calls :=
    Option.some.inj (.trans (by decide +kernel) (congrArg Except.toOption hok))
  cases hmem

/-- **Dispatch is sound.** With valid filters only, nothing goes wrong, no handler is called twice,
and every call has the topic and the message that were received, and a filter that matches. -/
theorem msgarrvd_sound (hvalid : ∀ f ∈ s.onMessageHndlMap, topicGrammar.Valid f)
    (hplain : topicGrammar.Plain (receivedTopic topicName topicLen)) (payload : List UInt8) :
    ∃ calls, s.msgarrvd topicName topicLen payload = .ok calls ∧
      (calls.map (·.filter)).Nodup ∧
      ∀ c ∈ calls, s.onMessageHndlMap[c.filter]? = some c.hndl ∧
        topicGrammar.Matches c.filter (receivedTopic topicName topicLen) ∧
        c.topic = receivedTopic topicName topicLen ∧ c.msg = payload := by
  classical
  refine ⟨_, dispatch_eq hplain fun e he => hvalid e.1 (mem_of_mem_toList he), ?_, ?_⟩
  · rw [List.map_map]
    have hsublist := (List.filter_sublist (l := s.onMessageHndlMap.toList) (p := fun e =>
      topicGrammar.Matches e.1 (receivedTopic topicName topicLen) ∧
        ¬Missed e.1 (receivedTopic topicName topicLen))).map Prod.fst
    rw [Std.ExtTreeMap.map_fst_toList_eq_keys] at hsublist
    exact Std.ExtTreeMap.nodup_keys.sublist hsublist
  · intro c hc
    obtain ⟨⟨f, hndl⟩, he, rfl⟩ := List.mem_map.mp hc
    obtain ⟨hentry, hreached⟩ := List.mem_filter.mp he
    exact ⟨Std.ExtTreeMap.mem_toList_iff_getElem?_eq_some.mp hentry,
      (of_decide_eq_true hreached).1, rfl, rfl⟩

/-- Three of five filters match, one of them is missed, and two handlers are called. -/
theorem msgarrvd_sound_five :
    let s : Imp Nat :=
      { client := true
        onMessageHndlMap := Std.ExtTreeMap.ofList [(bytes "#", 0), (bytes "a/+", 1),
          (bytes "a/b/#", 2), (bytes "b/#", 3), (bytes "+", 4)] compare }
    ∃ calls, s.msgarrvd (bytes "a/b") 0 [1] = .ok calls ∧ (calls.map (·.filter)).Nodup ∧
      ∀ c ∈ calls, s.onMessageHndlMap[c.filter]? = some c.hndl ∧
        topicGrammar.Matches c.filter (receivedTopic (bytes "a/b") 0) ∧
        c.topic = receivedTopic (bytes "a/b") 0 ∧ c.msg = [1] := by
  intro s
  have hvalid : ∀ f ∈ s.onMessageHndlMap.keys, topicGrammar.Valid f := by decide +kernel
  exact msgarrvd_sound (fun f hf => hvalid f (Std.ExtTreeMap.mem_keys.mpr hf))
    (by decide +kernel) [1]

end Imp

end Shapeware.Mqtt
