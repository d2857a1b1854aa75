import Mathlib

/-!
# Tables that correlate answers with requests

A requester that is answered asynchronously keeps, under the key the answer will carry, what it
needs to finish the request. The table is in step with the outstanding requests when it holds the
context of each of them and nothing else. Keys may be reused once the answer has come, and only some
keys need be well behaved: everything is relative to a set `keys` of keys that no two outstanding
requests share.
-/

namespace Correlation

variable {κ β ρ : Type*}

/-- On `keys`, the table holds the context of every live request, and nothing else. -/
def Tracks (keys : Set κ) (key : ρ → κ) (context : ρ → β) (table : κ → Option β)
    (live : Set ρ) : Prop :=
  ∀ k ∈ keys, ∀ c, table k = some c ↔ ∃ r ∈ live, key r = k ∧ context r = c

/-- Everything in the table is the context of some request of `known`, under that request's key. -/
def Within (key : ρ → κ) (context : ρ → β) (table : κ → Option β) (known : Set ρ) : Prop :=
  ∀ k c, table k = some c → ∃ r ∈ known, key r = k ∧ context r = c

/-- No two live requests share a key of `keys`. -/
def Distinct (keys : Set κ) (key : ρ → κ) (live : Set ρ) : Prop :=
  ∀ r ∈ live, ∀ r' ∈ live, key r ∈ keys → key r = key r' → r = r'

variable {keys : Set κ} {key : ρ → κ} {context : ρ → β} {table : κ → Option β}
  {live live' : Set ρ} {r : ρ} {c : β}

theorem Distinct.mono (h : Distinct keys key live) (hle : live' ⊆ live) :
    Distinct keys key live' :=
  fun r hr r' hr' => h r (hle hr) r' (hle hr')

theorem Distinct.insert (h : Distinct keys key live)
    (hfresh : key r ∈ keys → ∀ r' ∈ live, key r' ≠ key r) :
    Distinct keys key (Insert.insert r live) := by
  rintro a (rfl | ha) b (rfl | hb) hkeys heq
  · rfl
  · exact absurd heq.symm (hfresh hkeys b hb)
  · exact absurd heq (hfresh (heq ▸ hkeys) a ha)
  · exact h a ha b hb hkeys heq

namespace Within

theorem empty : Within key context (fun _ => none) live := by
  intro k c hc
  cases hc

theorem mono (h : Within key context table live) (hle : live ⊆ live') :
    Within key context table live' := by
  intro k c hc
  obtain ⟨r, hr, hrest⟩ := h k c hc
  exact ⟨r, hle hr, hrest⟩

variable [DecidableEq κ]

theorem update_some (h : Within key context table live) (hr : r ∈ live) :
    Within key context (Function.update table (key r) (some (context r))) live := by
  intro k c hc
  by_cases hk : k = key r
  · subst hk
    rw [Function.update_self] at hc
    exact ⟨r, hr, rfl, Option.some.inj hc⟩
  · rw [Function.update_of_ne hk] at hc
    exact h k c hc

theorem update_none (h : Within key context table live) (k : κ) :
    Within key context (Function.update table k none) live := by
  intro k' c hc
  by_cases hk : k' = k
  · subst hk
    simp at hc
  · rw [Function.update_of_ne hk] at hc
    exact h k' c hc

end Within

namespace Tracks

theorem empty : Tracks keys key context (fun _ => none) ∅ := by
  intro k _ c
  simp

/-- Only the live requests with keys in `keys` matter. -/
theorem congr (h : Tracks keys key context table live)
    (hlive : ∀ r, key r ∈ keys → (r ∈ live' ↔ r ∈ live)) :
    Tracks keys key context table live' := by
  intro k hk c
  rw [h k hk c]
  constructor <;> rintro ⟨r, hr, rfl, hc⟩
  · exact ⟨r, (hlive r hk).mpr hr, rfl, hc⟩
  · exact ⟨r, (hlive r hk).mp hr, rfl, hc⟩

theorem eq_some (h : Tracks keys key context table live) (hkey : key r ∈ keys) (hr : r ∈ live) :
    table (key r) = some (context r) :=
  (h _ hkey _).mpr ⟨r, hr, rfl, rfl⟩

theorem eq_none {k : κ} (h : Tracks keys key context table live) (hkey : k ∈ keys)
    (hk : ∀ r ∈ live, key r ≠ k) : table k = none := by
  rw [Option.eq_none_iff_forall_not_mem]
  intro c hc
  obtain ⟨r, hr, heq, _⟩ := (h k hkey c).mp hc
  exact hk r hr heq

variable [DecidableEq κ]

theorem update_some (h : Tracks keys key context table live)
    (hfresh : key r ∈ keys → ∀ r' ∈ live, key r' ≠ key r) :
    Tracks keys key context (Function.update table (key r) (some (context r)))
      (Insert.insert r live) := by
  intro k hk d
  by_cases heq : k = key r
  · subst heq
    simp only [Function.update_self, Option.some.injEq, Set.mem_insert_iff]
    constructor
    · rintro rfl
      exact ⟨r, Or.inl rfl, rfl, rfl⟩
    · rintro ⟨r', rfl | hr', hkey, hd⟩
      · exact hd
      · exact absurd hkey (hfresh hk r' hr')
  · rw [Function.update_of_ne heq, h k hk d]
    constructor
    · rintro ⟨r', hr', hrest⟩
      exact ⟨r', Or.inr hr', hrest⟩
    · rintro ⟨r', rfl | hr', hkey, hd⟩
      · exact absurd hkey.symm heq
      · exact ⟨r', hr', hkey, hd⟩

/-- Erasing an entry ends the requests that have its key, and leaves the others as they were. -/
theorem update_none (h : Tracks keys key context table live) (k : κ) :
    Tracks keys key context (Function.update table k none) {r ∈ live | key r ≠ k} := by
  intro k' hk d
  by_cases heq : k' = k
  · subst heq
    simp only [Function.update_self, reduceCtorEq, false_iff, not_exists, not_and]
    rintro r ⟨_, hne⟩ hkey
    exact absurd hkey hne
  · rw [Function.update_of_ne heq, h k' hk d]
    constructor
    · rintro ⟨r, hr, hkey, hd⟩
      exact ⟨r, ⟨hr, hkey ▸ heq⟩, hkey, hd⟩
    · rintro ⟨r, ⟨hr, _⟩, hrest⟩
      exact ⟨r, hr, hrest⟩

/-- A context that is stored over another one ends the request of that one. -/
theorem replace (h : Tracks keys key context table live) :
    Tracks keys key context (Function.update table (key r) (some (context r)))
      (Insert.insert r {r' ∈ live | key r' ≠ key r}) := by
  have hreplaced := (h.update_none (key r)).update_some (r := r) fun _ r' hr' => hr'.2
  rwa [Function.update_idem] at hreplaced

end Tracks

end Correlation
