import Shapeware.Mqtt.Session

/-!
# The limit for publish contexts

`BufferSize` is meant to bound the contexts of messages that are on their way. `publish` compares
the size of the map before it inserts, and only drops a context when the map holds more than that
already, so one more entry than `BufferSize` fits in.
-/

namespace Shapeware.Mqtt.Session

open Runs

/-- The publish whose critical section a step runs. -/
def publishing (w : Session) : Action → Option Request
  | .call op (.accepted token) => if op.kind = .publish then some ⟨w.calls, token, op⟩ else none
  | .store call => (w.storing.find? (·.call = call)).filter (·.op.kind = .publish)
  | _ => none

/-- The map has room, by the setting. -/
def HasRoom (w : Session) : Prop := (w.imp.publishContextMap.size : Int) < w.imp.bufferSize

/-- At `BufferSize` entries, a context is only stored over another one. -/
def StoresBelowLimit (w : Session) (a : Action) : Prop :=
  ∀ r ∈ w.publishing a, (w.imp.publishContextMap.size : Int) = w.imp.bufferSize →
    r.token ∈ w.imp.publishContextMap

instance (w : Session) (a : Action) : Decidable (w.StoresBelowLimit a) :=
  inferInstanceAs (Decidable (∀ r ∈ w.publishing a, _))

variable {w w' : Session} {a : Action} {r : Request} {bufferSize : Int}

theorem toSizeT_eq {value : Int} (hnonneg : 0 ≤ value) (hint : value < 2 ^ 31) :
    (toSizeT value : Int) = value := by
  unfold toSizeT
  omega

theorem size_answer_le (s : Imp Nat) (kind : Kind) (token : Int) (answer : Answer) :
    (s.answer kind token answer).1.publishContextMap.size ≤ s.publishContextMap.size := by
  have htake : ∀ call : PublishContext Nat → HandlerCall Nat,
      (Imp.takeContext s.publishContextMap token call).1.size ≤ s.publishContextMap.size := by
    intro call
    unfold Imp.takeContext
    split
    · exact Std.ExtTreeMap.size_erase_le
    · exact le_rfl
  cases answer <;> cases kind <;> first | exact le_rfl | exact htake _

@[simp]
theorem bufferSize_store (s : Imp Nat) (op : Op) (token : Int) (hndl : Nat) :
    (s.store op token hndl).bufferSize = s.bufferSize := by
  cases op with
  | publish topic qos msg => simp only [Imp.store, Imp.storePublish]; split_ifs <;> rfl
  | _ => rfl

@[simp]
theorem bufferSize_answer (s : Imp Nat) (kind : Kind) (token : Int) (answer : Answer) :
    (s.answer kind token answer).1.bufferSize = s.bufferSize := by
  cases answer <;> cases kind <;> rfl

theorem publishContextMap_store_of_ne (s : Imp Nat) {op : Op} (hkind : op.kind ≠ .publish)
    (token : Int) (hndl : Nat) : (s.store op token hndl).publishContextMap = s.publishContextMap := by
  cases op with
  | publish => exact absurd rfl hkind
  | _ => rfl

/-- A step runs the critical section of a publish, or adds nothing to the map. -/
theorem step_publishing (hclient : w.imp.client = true) (hstep : w.step a = some w') :
    w'.imp.client = true ∧ w'.imp.bufferSize = w.imp.bufferSize ∧
      ((∃ r, w.publishing a = some r ∧ r.op.kind = .publish ∧
          w'.imp = w.imp.store r.op r.token r.call) ∨
        w.publishing a = none ∧
          w'.imp.publishContextMap.size ≤ w.imp.publishContextMap.size) := by
  cases a with
  | call op retval =>
      cases retval with
      | refused code =>
          rw [step_call_refused] at hstep
          obtain rfl := Option.some.inj hstep
          exact ⟨hclient, rfl, .inr ⟨rfl, le_rfl⟩⟩
      | accepted token =>
          rw [step_call_accepted hclient] at hstep
          obtain rfl := Option.some.inj hstep
          refine ⟨by simpa [stores, accepts] using hclient, by simp [stores, accepts], ?_⟩
          by_cases hkind : op.kind = .publish
          · exact .inl ⟨_, if_pos hkind, hkind, rfl⟩
          · refine .inr ⟨if_neg hkind, ?_⟩
            simp [stores, accepts, publishContextMap_store_of_ne _ hkind]
  | accept op token =>
      rw [step, if_pos hclient] at hstep
      obtain rfl := Option.some.inj hstep
      exact ⟨hclient, rfl, .inr ⟨rfl, le_rfl⟩⟩
  | store call =>
      obtain ⟨r, hfind, rfl⟩ := Option.map_eq_some_iff.mp hstep
      refine ⟨by simpa [stores] using hclient, by simp [stores], ?_⟩
      by_cases hkind : r.op.kind = .publish
      · exact .inl ⟨r, by simp [publishing, hfind, hkind], hkind, rfl⟩
      · refine .inr ⟨by simp [publishing, hfind, hkind], ?_⟩
        simp [stores, publishContextMap_store_of_ne _ hkind]
  | answer call answer =>
      obtain ⟨r, _, _, rfl⟩ := step_answer hstep
      exact ⟨by simpa [answers] using hclient, by simp [answers],
        .inr ⟨rfl, size_answer_le _ _ _ _⟩⟩
  | delivered token =>
      obtain rfl := Option.some.inj hstep
      exact ⟨hclient, rfl, .inr ⟨rfl, le_rfl⟩⟩

theorem settings_of_reachable {allowed : Session → Action → Prop}
    (h : Reachable step allowed (init bufferSize) w) :
    w.imp.client = true ∧ w.imp.bufferSize = bufferSize := by
  refine h.invariant (fun w => w.imp.client = true ∧ w.imp.bufferSize = bufferSize) ⟨rfl, rfl⟩ ?_
  rintro w a w' ⟨hclient, hsize⟩ - hstep
  obtain ⟨hclient', hsize', _⟩ := step_publishing hclient hstep
  exact ⟨hclient', hsize'.trans hsize⟩

/-- The critical section stores the context unless the map is over its limit. -/
theorem publishContextMap_store (s : Imp Nat) (hnonneg : 0 ≤ s.bufferSize)
    (hint : s.bufferSize < 2 ^ 31) {op : Op} (hkind : op.kind = .publish) (token : Int) (hndl : Nat) :
    ((s.publishContextMap.size : Int) ≤ s.bufferSize →
      (s.store op token hndl).contextAt (.publish, token) = some (op.context hndl)) ∧
    (s.store op token hndl).publishContextMap.size =
      if s.bufferSize < (s.publishContextMap.size : Int) ∨ token ∈ s.publishContextMap then
        s.publishContextMap.size
      else s.publishContextMap.size + 1 := by
  cases op with
  | publish topic qos msg =>
      have hlimit : s.contextLimitReached = true ↔ s.bufferSize < s.publishContextMap.size := by
        have hsize := toSizeT_eq hnonneg hint
        simp only [Imp.contextLimitReached, decide_eq_true_eq]
        omega
      constructor
      · intro hle
        have hnot : s.contextLimitReached = false := by
          simpa [← Bool.not_eq_true, hlimit] using hle
        rw [Imp.contextAt_store]
        simp [Imp.drops, hnot, Op.kind]
      · simp only [Imp.store, Imp.storePublish, ← hlimit]
        by_cases hreached : s.contextLimitReached = true
        · simp [hreached]
        · simp [hreached, Std.ExtTreeMap.size_insert]
  | _ => cases hkind

/-- **The limit.** With any `BufferSize` that an `int` can hold and that is not negative, a run keeps
the map of publish contexts within it exactly if no context is stored under a new token while the
map holds `BufferSize` entries. A publish whose critical section finds fewer entries is always
stored. -/
theorem publishContextMap_le_bufferSize_iff (hnonneg : 0 ≤ bufferSize)
    (hint : bufferSize < 2 ^ 31) :
    (∀ w, Keeps step (fun _ _ => True)
        (fun w => (w.imp.publishContextMap.size : Int) ≤ bufferSize) (init bufferSize) w ↔
      Reachable step (fun w a => True ∧ w.StoresBelowLimit a) (init bufferSize) w) ∧
    ∀ w, Reachable step (fun _ _ => True) (init bufferSize) w → w.HasRoom →
      ∀ a r w', w.publishing a = some r → w.step a = some w' →
        w'.imp.contextAt r.key = some r.context := by
  constructor
  · intro w
    refine keeps_iff (fun w h => ?_) fun w a w' h _ hstep hover hle => ?_
    · refine h.invariant_of_reachable (fun w => (w.imp.publishContextMap.size : Int) ≤ bufferSize)
        (by simpa [init] using hnonneg) fun w a w' hreach hle hallowed hstep => ?_
      obtain ⟨hclient, rfl⟩ := settings_of_reachable hreach
      obtain ⟨_, _, ⟨r, hr, hkind, himp⟩ | ⟨_, hsize⟩⟩ := step_publishing hclient hstep
      · have hfits := hallowed.2 r hr
        rw [himp, (publishContextMap_store _ hnonneg hint hkind _ _).2]
        split_ifs with hstored
        · exact hle
        · push_cast
          by_contra hfull
          exact hstored (.inr (hfits (by omega)))
      · omega
    · obtain ⟨hclient, rfl⟩ := settings_of_reachable h
      simp only [StoresBelowLimit, not_forall] at hover
      obtain ⟨r, hr, hfull, hnew⟩ := hover
      obtain ⟨_, _, ⟨r', hr', hkind, himp⟩ | ⟨hnone, _⟩⟩ := step_publishing hclient hstep
      · obtain rfl := Option.some.inj (hr.symm.trans hr')
        rw [himp, (publishContextMap_store _ hnonneg hint hkind _ _).2,
          if_neg (by simp [hfull, hnew])] at hle
        omega
      · cases hr.symm.trans hnone
  · intro w h hroom a r w' hr hstep
    obtain ⟨hclient, rfl⟩ := settings_of_reachable h
    obtain ⟨_, _, ⟨r', hr', hkind, himp⟩ | ⟨hnone, _⟩⟩ := step_publishing hclient hstep
    · obtain rfl := Option.some.inj (hr.symm.trans hr')
      rw [himp, Request.key, hkind]
      exact (publishContextMap_store _ hnonneg hint hkind _ _).1 hroom.le
    · cases hr.symm.trans hnone

/-- Two messages fill the map up to a limit of two, a third one under a token that is used again
replaces an entry. -/
theorem publishContextMap_fills : ∃ w,
    Keeps step (fun _ _ => True) (fun w => (w.imp.publishContextMap.size : Int) ≤ 2) (init 2) w ∧
      w.imp.publishContextMap.size = 2 ∧ w.calls = 3 := by
  obtain ⟨w, hw, hsize⟩ : ∃ w, Reachable step (fun w a => True ∧ w.StoresBelowLimit a) (init 2) w ∧
      w.imp.publishContextMap.size = 2 ∧ w.calls = 3 :=
    Runs.exists_reachable
      [.call (.publish (bytes "a") 1 [1]) (.accepted 1),
        .call (.publish (bytes "a") 1 [2]) (.accepted 2),
        .call (.publish (bytes "b") 1 [3]) (.accepted 2)] (by decide +kernel)
  exact ⟨w, ((publishContextMap_le_bufferSize_iff (by decide) (by decide)).1 w).mpr hw, hsize⟩

/-- With `BufferSize` 1, the contexts of two messages are stored. -/
theorem publishContextMap_over_bufferSize :
    ¬ ∀ bufferSize : Int, 0 ≤ bufferSize → bufferSize < 2 ^ 31 →
      ∀ w, Reachable step (fun _ _ => True) (init bufferSize) w →
        (w.imp.publishContextMap.size : Int) ≤ bufferSize := by
  intro hall
  specialize hall 1 (by decide) (by decide)
  revert hall
  exact Runs.not_forall_reachable
    [.call (.publish (bytes "a") 1 [1]) (.accepted 1),
      .call (.publish (bytes "a") 1 [2]) (.accepted 2)]
    ⟨_, Option.get_mem (by decide +kernel), by decide +kernel⟩

end Shapeware.Mqtt.Session
