import Shapeware.Mqtt.HandlerMap
import Shapeware.Mqtt.Matching

/-!
# The strings and the lists of the matching loop

`tokenizeTopic` cuts a string at every delimiter and loses nothing, so the tokens stand for the
string. The walk over two token lists stays inside of them because their lengths are compared first;
the look at the last character of a filter relies on a filter that is not empty, which `subscribe`
does not ask for.
-/

namespace Shapeware.Mqtt

open Levels

variable {H : Type}

/-! ### Tokens -/

/-- The tokens agree level by level, where a `+` of the filter agrees with any token. -/
def LevelsAgree (filter topic : StdString) : Prop :=
  List.Forall₂ (fun l n => l = ['+'.toUInt8] ∨ l = n) (tokenizeTopic filter) (tokenizeTopic topic)

/-- What the `+` branch of `msgarrvd` decides. -/
theorem plusWildcard_eq (filter topic : StdString) :
    ∃ found, plusWildcard topic filter = .ok found ∧
      (found = true ↔ '+'.toUInt8 ∈ filter ∧ LevelsAgree filter topic) := by
  obtain ⟨found, hfound, hhit⟩ := plusWildcard_spec filter topic
  refine ⟨found, hfound, hhit.trans ?_⟩
  rw [PlusHit, LevelsAgree, tokenizeTopic_eq, tokenizeTopic_eq]
  rfl

theorem levelsAgree_iff_matches {filter : StdString} (hhash : '#'.toUInt8 ∉ filter)
    (topic : StdString) : LevelsAgree filter topic ↔ topicGrammar.Matches filter topic := by
  rw [Grammar.matches_iff_forall₂ (G := topicGrammar) hhash, LevelsAgree, tokenizeTopic_eq,
    tokenizeTopic_eq]
  rfl

/-- **The split is exact**: no token has the delimiter, the tokens joined are the string, their
number is that of the delimiters and one, and equal tokens mean equal strings. The `+` branch of
`msgarrvd` compares the tokens level by level, as the matching rule does without a `#`. -/
theorem tokenizeTopic_exact (s : StdString) (delimit : UInt8) :
    (∀ token ∈ tokenizeTopic s delimit, delimit ∉ token) ∧
      [delimit].intercalate (tokenizeTopic s delimit) = s ∧
      (tokenizeTopic s delimit).length = s.count delimit + 1 ∧
      (∀ s', tokenizeTopic s' delimit = tokenizeTopic s delimit ↔ s' = s) ∧
      ∀ filter,
        (∃ found, plusWildcard s filter = .ok found ∧
          (found = true ↔ '+'.toUInt8 ∈ filter ∧ LevelsAgree filter s)) ∧
        ('#'.toUInt8 ∉ filter → (LevelsAgree filter s ↔ topicGrammar.Matches filter s)) := by
  refine ⟨?_, ?_, ?_, fun s' => ?_, fun filter => ⟨plusWildcard_eq filter s, fun hhash =>
    levelsAgree_iff_matches hhash s⟩⟩
  · rw [tokenizeTopic_eq]
    exact fun token => sep_notMem_of_mem_splitOn
  · rw [tokenizeTopic_eq]
    exact List.intercalate_splitOn delimit
  · rw [tokenizeTopic_eq]
    exact length_splitOn delimit s
  · rw [tokenizeTopic_eq, tokenizeTopic_eq]
    exact ⟨splitOn_injective, congrArg _⟩

example : tokenizeTopic (bytes "/a//b/") = [[], bytes "a", [], bytes "b", []] := by
  rw [tokenizeTopic_eq]
  decide +kernel

/-! ### Bounds -/

namespace Imp

/-- Whatever message arrives, no index and no iterator is out of range. -/
def InBounds (s : Imp H) : Prop :=
  ∀ topicName topicLen payload, ∃ calls, s.msgarrvd topicName topicLen payload = .ok calls

theorem inBounds_iff {s : Imp H} : s.InBounds ↔ [] ∉ s.onMessageHndlMap := by
  constructor
  · intro h hempty
    obtain ⟨hndl, hhndl⟩ :=
      Option.isSome_iff_exists.mp (Std.ExtTreeMap.mem_iff_isSome_getElem?.mp hempty)
    obtain ⟨calls, hok⟩ := h [] 0 []
    exact dispatch_of_empty_mem
      (Std.ExtTreeMap.mem_toList_iff_getElem?_eq_some.mpr hhndl) calls hok
  · intro hempty topicName topicLen payload
    have hne : ∀ e ∈ s.onMessageHndlMap.toList, e.1 ≠ [] := by
      rintro ⟨filter, hndl⟩ he rfl
      exact hempty (mem_of_mem_toList he)
    obtain ⟨calls, hok, -⟩ := dispatch_spec (receivedTopic topicName topicLen) payload hne
    exact ⟨calls, hok⟩

end Imp

def Op.subscribesEmpty : Op → Bool
  | .subscribe [] _ => true
  | _ => false

theorem Imp.empty_mem_store (s : Imp Nat) (r : Request) :
    [] ∈ (s.store r.op r.token r.call).onMessageHndlMap ↔
      r.op.subscribesEmpty = true ∨ r.op.handlerTopic ≠ some [] ∧ [] ∈ s.onMessageHndlMap := by
  rw [Std.ExtTreeMap.mem_iff_isSome_getElem?, Imp.onMessageHndlMap_store,
    Std.ExtTreeMap.mem_iff_isSome_getElem?]
  obtain ⟨call, token, op⟩ := r
  cases op with
  | subscribe topic qos =>
      cases topic <;> simp [Op.handlerTopic, Request.handlerAfter, Op.subscribesEmpty]
  | unsubscribe topic =>
      cases topic <;> simp [Op.handlerTopic, Request.handlerAfter, Op.subscribesEmpty]
  | publish => simp [Op.handlerTopic, Op.subscribesEmpty]

namespace Session

/-- The request whose context and handler a step stores. -/
def storedRequest (w : Session) : Action → Option Request
  | .call op (.accepted token) => if w.imp.client then some ⟨w.calls, token, op⟩ else none
  | .store call => w.storing.find? (·.call = call)
  | _ => none

/-- The step does not store the handler of a `subscribe` with the empty string. -/
def NoEmptyFilter (w : Session) (a : Action) : Prop :=
  ∀ r ∈ w.storedRequest a, r.op.subscribesEmpty = false

variable {w w' : Session} {a : Action}

/-- Only storing a request changes the handler map. -/
theorem onMessageHndlMap_step (h : w.step a = some w') :
    w'.imp.onMessageHndlMap =
      ((w.storedRequest a).elim w.imp fun r => w.imp.store r.op r.token r.call).onMessageHndlMap := by
  cases a with
  | call op retval =>
      cases hclient : w.imp.client with
      | false =>
          rw [step_call_of_not_client hclient] at h
          cases h
          cases retval <;> simp [storedRequest, hclient, skips]
      | true =>
          cases retval with
          | refused code =>
              rw [step_call_refused] at h
              cases h
              rfl
          | accepted token =>
              rw [step_call_accepted hclient] at h
              cases h
              simp [storedRequest, hclient, stores, accepts]
  | accept op token =>
      rw [step] at h
      split_ifs at h
      cases h
      rfl
  | store call =>
      obtain ⟨r, hfind, rfl⟩ := Option.map_eq_some_iff.mp h
      simp [storedRequest, hfind, stores]
  | answer call answer =>
      obtain ⟨r, -, -, rfl⟩ := step_answer h
      exact Imp.onMessageHndlMap_answer ..
  | delivered token =>
      cases h
      rfl

theorem empty_mem_of_step (h : w.step a = some w') (hempty : ¬ w.NoEmptyFilter a) :
    [] ∈ w'.imp.onMessageHndlMap := by
  rw [onMessageHndlMap_step h]
  simp only [NoEmptyFilter, not_forall, Bool.not_eq_false] at hempty
  obtain ⟨r, hr, hsubscribes⟩ := hempty
  rw [Option.mem_def.mp hr]
  exact (Imp.empty_mem_store w.imp r).mpr (.inl hsubscribes)

theorem empty_notMem_of_step (h : w.step a = some w') (hcond : w.NoEmptyFilter a)
    (hnot : [] ∉ w.imp.onMessageHndlMap) : [] ∉ w'.imp.onMessageHndlMap := by
  rw [onMessageHndlMap_step h]
  cases hstored : w.storedRequest a with
  | none => exact hnot
  | some r =>
      rw [Option.elim_some, Imp.empty_mem_store, hcond r hstored]
      rintro (hsubscribes | ⟨-, hmem⟩)
      · cases hsubscribes
      · exact hnot hmem

/-- **Bounds, and when.** Whatever the threads and the library do, the runs in which no message can
make `msgarrvd` read outside of a string or a list are those in which no subscription of the empty
string is stored. -/
theorem inBounds_iff_noEmptyFilter (allowed : Session → Action → Prop) (bufferSize : Int) :
    Runs.Keeps step allowed (fun w => w.imp.InBounds) (init bufferSize) w ↔
      Runs.Reachable step (fun w a => allowed w a ∧ w.NoEmptyFilter a) (init bufferSize) w := by
  apply Runs.keeps_iff
  · intro w hw
    refine Imp.inBounds_iff.mpr (hw.invariant (fun w => [] ∉ w.imp.onMessageHndlMap) ?_ ?_)
    · simp [init]
    · exact fun w a w' hnot hcond hstep => empty_notMem_of_step hstep hcond.2 hnot
  · exact fun w a w' _ _ hstep hempty hbounds =>
      Imp.inBounds_iff.mp hbounds (empty_mem_of_step hstep hempty)

/-- A subscription of the empty string is accepted, and any message reads before the filter. -/
theorem empty_filter_out_of_range :
    ¬ ∀ w, Runs.Reachable step AtomicRun (init 10) w → w.imp.InBounds := by
  refine Runs.not_forall_reachable [.call (.subscribe [] 1) (.accepted 1)]
    ⟨_, Option.get_mem (by decide +kernel), fun hbounds => ?_⟩
  exact Imp.inBounds_iff.mp hbounds (by decide +kernel)

end Session

end Shapeware.Mqtt
