import Mathlib

/-!
# Hierarchical names and wildcard filters

A hierarchical name is a string that a separator divides into levels. A filter is written in the
same way, with two wildcards: one stands for a single level, the other, as the last level, for any
number of levels, so also for none. What a filter matches is defined on levels; the lemmas say what
that means for the strings.
-/

namespace Levels

variable {α ν : Type*}

/-- One level of a filter. -/
inductive Level (ν : Type*)
  | name (n : ν)
  | single
  | multi

/-- A filter matches a name level by level. -/
inductive Matches : List (Level ν) → List ν → Prop
  | nil : Matches [] []
  | name (n : ν) {fs : List (Level ν)} {ns : List ν} :
      Matches fs ns → Matches (.name n :: fs) (n :: ns)
  | single (n : ν) {fs : List (Level ν)} {ns : List ν} :
      Matches fs ns → Matches (.single :: fs) (n :: ns)
  | multi (ns : List ν) : Matches [.multi] ns

/-- Without wildcards only the name itself matches. -/
theorem matches_map_name {ms ns : List ν} : Matches (ms.map .name) ns ↔ ms = ns := by
  induction ms generalizing ns with
  | nil =>
      constructor
      · rintro ⟨⟩
        rfl
      · rintro rfl
        exact .nil
  | cons m ms ih =>
      constructor
      · rintro (_ | ⟨_, h⟩)
        rw [ih.mp h]
      · rintro rfl
        exact .name m (ih.mpr rfl)

/-- With the many-level wildcard at the end, all the names below match, and the name itself. -/
theorem matches_map_name_multi {ms ns : List ν} :
    Matches (ms.map .name ++ [.multi]) ns ↔ ms <+: ns := by
  induction ms generalizing ns with
  | nil => exact iff_of_true (.multi ns) (List.nil_prefix)
  | cons m ms ih =>
      constructor
      · rintro (_ | ⟨_, h⟩)
        exact List.cons_prefix_cons.mpr ⟨rfl, ih.mp h⟩
      · rintro ⟨rest, rfl⟩
        exact .name m (ih.mpr (List.prefix_append ms rest))

theorem exists_of_forall₂ {β : Type*} {R : α → β → Prop} {as : List α} {bs : List β} {a : α}
    (h : List.Forall₂ R as bs) (ha : a ∈ as) : ∃ b ∈ bs, R a b := by
  induction h with
  | nil => cases ha
  | @cons a' b as bs hab _ ih =>
      obtain rfl | ha := List.mem_cons.mp ha
      · exact ⟨b, List.mem_cons_self, hab⟩
      · obtain ⟨b', hb', hrel⟩ := ih ha
        exact ⟨b', List.mem_cons_of_mem _ hb', hrel⟩

/-! ### Splitting -/

section Split

variable [DecidableEq α] {sep c : α} {s t : List α}

theorem splitOn_injective (h : s.splitOn sep = t.splitOn sep) : s = t :=
  calc s = [sep].intercalate (s.splitOn sep) := (List.intercalate_splitOn sep).symm
    _ = [sep].intercalate (t.splitOn sep) := by rw [h]
    _ = t := List.intercalate_splitOn sep

theorem mem_iff_exists_mem_splitOn (hc : c ≠ sep) : c ∈ s ↔ ∃ l ∈ s.splitOn sep, c ∈ l := by
  induction s with
  | nil => simp
  | cons a s ih =>
      rw [List.splitOn_cons_eq_if_modifyHead, List.mem_cons, ih]
      by_cases ha : a = sep
      · simp [ha, hc]
      · obtain ⟨l, ls, hls⟩ := List.exists_cons_of_ne_nil (List.splitOn_ne_nil sep s)
        simp [ha, hls, or_assoc]

theorem sep_notMem_of_mem_splitOn {l : List α} (hl : l ∈ s.splitOn sep) : sep ∉ l := by
  induction s generalizing l with
  | nil => simp_all
  | cons a s ih =>
      rw [List.splitOn_cons_eq_if_modifyHead] at hl
      obtain ⟨l', ls, hls⟩ := List.exists_cons_of_ne_nil (List.splitOn_ne_nil sep s)
      simp only [hls, List.mem_cons, forall_eq_or_imp] at ih
      by_cases ha : a = sep
      · simp only [ha, beq_self_eq_true, if_true, hls, List.mem_cons] at hl
        obtain rfl | rfl | hrest := hl
        · exact List.not_mem_nil
        · exact ih.1
        · exact ih.2 l hrest
      · simp only [beq_iff_eq, ha, if_false, hls, List.modifyHead_cons, List.mem_cons] at hl
        obtain rfl | hrest := hl
        · rw [List.mem_cons, not_or]
          exact ⟨Ne.symm ha, ih.1⟩
        · exact ih.2 l hrest

theorem length_splitOn (sep : α) (s : List α) :
    (s.splitOn sep).length = s.count sep + 1 := by
  induction s with
  | nil => simp
  | cons a s ih =>
      rw [List.splitOn_cons_eq_if_modifyHead, List.count_cons]
      by_cases ha : a = sep
      · simp [ha, ih]
      · simp [ha, ih]

/-- The last separator ends the last level but one. -/
theorem splitOn_cases (sep : α) (s : List α) :
    s.splitOn sep = [s] ∨ ∃ p l, s = p ++ sep :: l ∧ s.splitOn sep = p.splitOn sep ++ [l] := by
  by_cases hmem : sep ∈ s
  · obtain ⟨l, p, hs, hl⟩ := List.eq_append_cons_of_mem (List.mem_reverse.mpr hmem)
    have hs' : s = p.reverse ++ sep :: l.reverse := by
      rw [← List.reverse_reverse s, hs]
      simp
    refine Or.inr ⟨p.reverse, l.reverse, hs', ?_⟩
    have hlast : l.reverse.splitOn sep = [l.reverse] :=
      List.splitOn_eq_singleton (by simpa using hl)
    rw [hs', List.splitOn_append_cons_self, hlast]
  · exact Or.inl (List.splitOn_eq_singleton hmem)

omit [DecidableEq α] in
theorem intercalate_append (ls : List (List α)) {ms : List (List α)} (hls : ls ≠ [])
    (hms : ms ≠ []) :
    [sep].intercalate (ls ++ ms) = [sep].intercalate ls ++ sep :: [sep].intercalate ms := by
  induction ls with
  | nil => exact absurd rfl hls
  | cons l ls ih =>
      cases ls with
      | nil =>
          obtain ⟨m, ms, rfl⟩ := List.exists_cons_of_ne_nil hms
          simp [List.intercalate]
      | cons l' ls =>
          have hrest := ih (List.cons_ne_nil _ _)
          simp only [List.intercalate, List.cons_append, List.intersperse_cons_cons,
            List.flatten_cons] at hrest ⊢
          simp [hrest]

/-- A string is at or below another one exactly when its levels begin with those of the other. -/
theorem splitOn_prefix_iff : s.splitOn sep <+: t.splitOn sep ↔ t = s ∨ s ++ [sep] <+: t := by
  constructor
  · rintro ⟨rest, hrest⟩
    by_cases hnil : rest = []
    · left
      have hsame : t.splitOn sep = s.splitOn sep := by rw [← hrest, hnil, List.append_nil]
      exact splitOn_injective hsame
    · right
      refine ⟨[sep].intercalate rest, ?_⟩
      calc s ++ [sep] ++ [sep].intercalate rest
          = [sep].intercalate (s.splitOn sep) ++ sep :: [sep].intercalate rest := by
            rw [List.intercalate_splitOn, List.append_assoc, List.singleton_append]
        _ = [sep].intercalate (t.splitOn sep) := by
            rw [← hrest, intercalate_append _ (List.splitOn_ne_nil _ _) hnil]
        _ = t := List.intercalate_splitOn sep
  · rintro (rfl | ⟨rest, rfl⟩)
    · exact List.prefix_refl _
    · rw [List.append_assoc, List.singleton_append, List.splitOn_append_cons_self]
      exact List.prefix_append _ _

end Split

/-! ### Filters as strings -/

/-- The separator and the two wildcards of a filter language. -/
structure Grammar (α : Type*) where
  sep : α
  single : α
  multi : α
  single_ne_sep : single ≠ sep
  multi_ne_sep : multi ≠ sep
  single_ne_multi : single ≠ multi

namespace Grammar

variable [DecidableEq α] (G : Grammar α) {f t : List α}

def levels (s : List α) : List (List α) := s.splitOn G.sep

/-- A level is a wildcard when it is nothing but the wildcard letter. -/
def level (l : List α) : Level (List α) :=
  if l = [G.single] then .single else if l = [G.multi] then .multi else .name l

protected def Matches (f t : List α) : Prop := Levels.Matches ((G.levels f).map G.level) (G.levels t)

/-- Wildcard letters stand alone in their levels, and the many-level one stands only in the last. -/
structure Valid (f : List α) : Prop where
  ne_nil : f ≠ []
  single_alone : ∀ l ∈ G.levels f, G.single ∈ l → l = [G.single]
  multi_alone : ∀ l ∈ G.levels f, G.multi ∈ l → l = [G.multi]
  multi_last : ∀ l ∈ (G.levels f).dropLast, G.multi ∉ l

/-- A string without wildcard letters. -/
structure Plain (t : List α) : Prop where
  single_notMem : G.single ∉ t
  multi_notMem : G.multi ∉ t

instance (f : List α) : Decidable (G.Valid f) :=
  decidable_of_iff (f ≠ [] ∧ (∀ l ∈ G.levels f, G.single ∈ l → l = [G.single]) ∧
      (∀ l ∈ G.levels f, G.multi ∈ l → l = [G.multi]) ∧ ∀ l ∈ (G.levels f).dropLast, G.multi ∉ l)
    ⟨fun h => ⟨h.1, h.2.1, h.2.2.1, h.2.2.2⟩, fun h => ⟨h.1, h.2, h.3, h.4⟩⟩

instance (t : List α) : Decidable (G.Plain t) :=
  decidable_of_iff (G.single ∉ t ∧ G.multi ∉ t) ⟨fun h => ⟨h.1, h.2⟩, fun h => ⟨h.1, h.2⟩⟩

variable {G}

theorem single_mem_iff : G.single ∈ f ↔ ∃ l ∈ G.levels f, G.single ∈ l :=
  mem_iff_exists_mem_splitOn G.single_ne_sep

theorem multi_mem_iff : G.multi ∈ f ↔ ∃ l ∈ G.levels f, G.multi ∈ l :=
  mem_iff_exists_mem_splitOn G.multi_ne_sep

theorem Plain.level_eq (h : G.Plain t) {l : List α} (hl : l ∈ G.levels t) :
    G.level l = .name l := by
  have hsingle : l ≠ [G.single] := by
    rintro rfl
    exact h.single_notMem (single_mem_iff.mpr ⟨_, hl, List.mem_singleton_self _⟩)
  have hmulti : l ≠ [G.multi] := by
    rintro rfl
    exact h.multi_notMem (multi_mem_iff.mpr ⟨_, hl, List.mem_singleton_self _⟩)
  rw [level, if_neg hsingle, if_neg hmulti]

theorem Plain.map_level (h : G.Plain t) : (G.levels t).map G.level = (G.levels t).map .name :=
  List.map_congr_left fun _ hl => h.level_eq hl

@[simp]
theorem level_multi : G.level [G.multi] = .multi := by
  simp [level, G.single_ne_multi.symm]

/-- A filter without wildcards matches itself only. -/
theorem Plain.matches_iff (h : G.Plain f) : G.Matches f t ↔ f = t := by
  rw [Grammar.Matches, h.map_level, matches_map_name]
  exact ⟨splitOn_injective, congrArg _⟩

theorem levels_multi : G.levels [G.multi] = [[G.multi]] :=
  List.splitOn_eq_singleton (by simpa using G.multi_ne_sep.symm)

theorem matches_multi : G.Matches [G.multi] t := by
  rw [Grammar.Matches, levels_multi, List.map_singleton, level_multi]
  exact .multi _

/-- Under a parent without wildcards, the many-level wildcard matches the parent and all below. -/
theorem Plain.matches_multi_iff {p : List α} (h : G.Plain p) :
    G.Matches (p ++ [G.sep, G.multi]) t ↔ t = p ∨ p ++ [G.sep] <+: t := by
  have hlevels : G.levels (p ++ [G.sep, G.multi]) = G.levels p ++ [[G.multi]] := by
    rw [← levels_multi]
    exact List.splitOn_append_cons_self _ _
  rw [Grammar.Matches, hlevels, List.map_append, h.map_level, List.map_singleton, level_multi,
    matches_map_name_multi]
  exact splitOn_prefix_iff

/-- Without the many-level wildcard, levels correspond one to one. -/
theorem matches_iff_forall₂ (h : G.multi ∉ f) :
    G.Matches f t ↔
      List.Forall₂ (fun l n => l = [G.single] ∨ l = n) (G.levels f) (G.levels t) := by
  have hmulti : ∀ l ∈ G.levels f, l ≠ [G.multi] := by
    rintro l hl rfl
    exact h (multi_mem_iff.mpr ⟨_, hl, List.mem_singleton_self _⟩)
  rw [Grammar.Matches]
  generalize G.levels t = ns
  generalize G.levels f = ls at hmulti
  induction ls generalizing ns with
  | nil =>
      constructor
      · rintro ⟨⟩
        exact .nil
      · rintro ⟨⟩
        exact .nil
  | cons l ls ih =>
      have hrest := fun ns => ih ns fun l' hl' => hmulti l' (List.mem_cons_of_mem _ hl')
      have hl := hmulti l List.mem_cons_self
      rw [List.map_cons, level]
      by_cases hsingle : l = [G.single]
      · rw [if_pos hsingle]
        constructor
        · rintro (_ | _ | ⟨_, hmatch⟩)
          exact .cons (Or.inl hsingle) ((hrest _).mp hmatch)
        · rintro (_ | ⟨_, hforall⟩)
          exact .single _ ((hrest _).mpr hforall)
      · rw [if_neg hsingle, if_neg hl]
        constructor
        · rintro (_ | ⟨_, hmatch⟩)
          exact .cons (Or.inr rfl) ((hrest _).mp hmatch)
        · rintro (_ | ⟨hlevel, hforall⟩)
          obtain rfl := hlevel.resolve_left hsingle
          exact .name _ ((hrest _).mpr hforall)

/-- A valid filter with a many-level wildcard is that wildcard alone, or has it below a parent. -/
theorem Valid.multi_cases (h : G.Valid f) (hmem : G.multi ∈ f) :
    f = [G.multi] ∨ ∃ p, f = p ++ [G.sep, G.multi] ∧ G.multi ∉ p := by
  obtain ⟨l, hl, hlmem⟩ := multi_mem_iff.mp hmem
  obtain hone | ⟨p, q, hf, hsplit⟩ := splitOn_cases G.sep f
  · have hlevels : G.levels f = [f] := hone
    exact Or.inl (h.multi_alone f (by simp [hlevels]) hmem)
  · have hlevels : G.levels f = G.levels p ++ [q] := hsplit
    have hparent : ∀ l ∈ G.levels p, G.multi ∉ l := fun l hl => h.multi_last l (by simp [hlevels, hl])
    have hq : q = [G.multi] := by
      have hmem' : l ∈ G.levels p ++ [q] := hlevels ▸ hl
      obtain hp | hlq := List.mem_append.mp hmem'
      · exact absurd hlmem (hparent l hp)
      · obtain rfl := List.mem_singleton.mp hlq
        exact h.multi_alone l hl hlmem
    subst hq
    refine Or.inr ⟨p, hf, fun hp => ?_⟩
    obtain ⟨l', hl', hmem'⟩ := multi_mem_iff.mp hp
    exact hparent l' hl' hmem'

end Grammar

end Levels
