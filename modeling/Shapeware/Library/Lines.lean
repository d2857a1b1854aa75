import Mathlib

/-!
# Lines and words

A text is its complete lines, each with a line end after it, and what comes after the last line end.
A reader that takes the text as it comes in sees the same lines, however the text is cut. The words of
a text are what lies between its blanks.
-/

namespace Lines

variable {α : Type*}

/-! ### Lines -/

section Lines

/-- The text of some lines. -/
def unlines (nl : α) (ls : List (List α)) : List α := ls.flatMap (· ++ [nl])

variable [DecidableEq α] {nl : α} {s t p line rest : List α} {ls ms : List (List α)}

/-- The first line and what comes after it, if the line is complete. -/
def uncons (nl : α) : List α → Option (List α × List α)
  | [] => none
  | c :: s => if c = nl then some ([], s) else (uncons nl s).map fun r => (c :: r.1, r.2)

/-- The complete lines, and what comes after them. -/
def split (nl : α) : List α → List (List α) × List α
  | [] => ([], [])
  | c :: s =>
    match split nl s with
    | (ls, p) =>
      if c = nl then ([] :: ls, p)
      else
        match ls with
        | [] => ([], c :: p)
        | l :: ls => ((c :: l) :: ls, p)

def complete (nl : α) (s : List α) : List (List α) := (split nl s).1

def pending (nl : α) (s : List α) : List α := (split nl s).2

omit [DecidableEq α] in
theorem unlines_append (nl : α) (ls ms : List (List α)) :
    unlines nl (ls ++ ms) = unlines nl ls ++ unlines nl ms :=
  List.flatMap_append

theorem uncons_eq_some :
    uncons nl s = some (line, rest) ↔ s = line ++ nl :: rest ∧ nl ∉ line := by
  induction s generalizing line with
  | nil => simp [uncons]
  | cons c s ih =>
      rw [uncons]
      split_ifs with hc
      · subst hc
        cases line with
        | nil => simp [eq_comm]
        | cons a line =>
            simp only [Option.some.injEq, Prod.mk.injEq, List.cons_append, List.cons.injEq]
            constructor
            · rintro ⟨⟨⟩, -⟩
            · rintro ⟨⟨rfl, -⟩, hnot⟩
              exact absurd List.mem_cons_self hnot
      · cases line with
        | nil => simp [hc]
        | cons a line =>
            simp only [Option.map_eq_some_iff, Prod.exists, Prod.mk.injEq, List.cons.injEq,
              List.cons_append, List.mem_cons, not_or]
            constructor
            · rintro ⟨line', rest', huncons, ⟨rfl, rfl⟩, rfl⟩
              obtain ⟨rfl, hnot⟩ := ih.mp huncons
              exact ⟨⟨rfl, rfl⟩, Ne.symm hc, hnot⟩
            · rintro ⟨⟨rfl, rfl⟩, -, hnot⟩
              exact ⟨line, rest, ih.mpr ⟨rfl, hnot⟩, ⟨rfl, rfl⟩, rfl⟩

theorem uncons_eq_none : uncons nl s = none ↔ nl ∉ s := by
  induction s with
  | nil => simp [uncons]
  | cons c s ih =>
      rw [uncons]
      split_ifs with hc
      · simp [hc]
      · simp [ih, Ne.symm hc]

theorem split_spec (nl : α) (s : List α) :
    s = unlines nl (complete nl s) ++ pending nl s ∧ (∀ l ∈ complete nl s, nl ∉ l) ∧
      nl ∉ pending nl s := by
  induction s with
  | nil => simp [complete, pending, split, unlines]
  | cons c s ih =>
      rw [complete, pending] at ih ⊢
      rw [split]
      generalize split nl s = r at ih
      obtain ⟨ls, p⟩ := r
      obtain ⟨hs, hls, hp⟩ := ih
      simp only at hs hls hp
      by_cases hc : c = nl
      · subst hc
        simpa [unlines, hs] using ⟨hls, hp⟩
      · cases ls with
        | nil => simp [hc, hs, unlines, Ne.symm hc, hp]
        | cons l ls =>
            simp only [List.mem_cons, forall_eq_or_imp] at hls
            simpa [hc, hs, unlines, Ne.symm hc] using ⟨hls, hp⟩

theorem split_of_notMem (hp : nl ∉ p) : split nl p = ([], p) := by
  induction p with
  | nil => rfl
  | cons c p ih =>
      rw [List.mem_cons, not_or] at hp
      rw [split, ih hp.2]
      simp [Ne.symm hp.1]

theorem split_line (hline : nl ∉ line) (s : List α) :
    split nl (line ++ nl :: s) = (line :: complete nl s, pending nl s) := by
  induction line with
  | nil => simp [split, complete, pending]
  | cons c line ih =>
      rw [List.mem_cons, not_or] at hline
      rw [List.cons_append, split, ih hline.2]
      simp [Ne.symm hline.1]

/-- There is one way to cut a text into lines. -/
theorem split_unlines (hls : ∀ l ∈ ls, nl ∉ l) (hp : nl ∉ p) :
    split nl (unlines nl ls ++ p) = (ls, p) := by
  induction ls with
  | nil => exact split_of_notMem hp
  | cons l ls ih =>
      rw [List.forall_mem_cons] at hls
      have htext : unlines nl (l :: ls) ++ p = l ++ nl :: (unlines nl ls ++ p) := by
        simp [unlines]
      rw [htext, split_line hls.1, complete, pending, ih hls.2]

theorem complete_unlines (hls : ∀ l ∈ ls, nl ∉ l) (hp : nl ∉ p) :
    complete nl (unlines nl ls ++ p) = ls :=
  congrArg Prod.fst (split_unlines hls hp)

/-- What was not a complete line is read again with what comes after it. -/
theorem split_append (nl : α) (s t : List α) :
    complete nl (s ++ t) = complete nl s ++ complete nl (pending nl s ++ t) ∧
      pending nl (s ++ t) = pending nl (pending nl s ++ t) := by
  obtain ⟨hs, hls, -⟩ := split_spec nl s
  obtain ⟨ht, hms, hp⟩ := split_spec nl (pending nl s ++ t)
  have htext : s ++ t = unlines nl (complete nl s ++ complete nl (pending nl s ++ t)) ++
      pending nl (pending nl s ++ t) := by
    rw [unlines_append, List.append_assoc, ← ht, ← List.append_assoc, ← hs]
  have hboth : ∀ l ∈ complete nl s ++ complete nl (pending nl s ++ t), nl ∉ l := by
    intro l hl
    obtain hl | hl := List.mem_append.mp hl
    · exact hls l hl
    · exact hms l hl
  have hsplit := split_unlines hboth hp
  rw [← htext] at hsplit
  constructor
  · rw [complete, hsplit]
  · rw [pending, hsplit]

/-- What has been read from a text is a beginning of its lines. -/
theorem prefix_complete (hls : ∀ l ∈ ls, nl ∉ l) (rest : List α) :
    ls ++ complete nl rest = complete nl (unlines nl ls ++ rest) := by
  have hsplit : split nl (unlines nl ls) = (ls, []) := by
    simpa using split_unlines hls (List.not_mem_nil (a := nl))
  have hcomplete : complete nl (unlines nl ls) = ls := congrArg Prod.fst hsplit
  have hpending : pending nl (unlines nl ls) = [] := congrArg Prod.snd hsplit
  rw [(split_append nl (unlines nl ls) rest).1, hcomplete, hpending, List.nil_append]

end Lines

/-! ### Words -/

section Words

variable {blank : α → Bool} {s t w : List α} {c : α}

/-- The next word, and what comes after it. -/
def extract (blank : α → Bool) (s : List α) : List α × List α :=
  let s := s.dropWhile blank
  (s.takeWhile (!blank ·), s.dropWhile (!blank ·))

/-- What lies between the blanks. -/
def words (blank : α → Bool) (s : List α) : List (List α) :=
  (s.splitOnP blank).filter (!·.isEmpty)

theorem words_append_cons (s t : List α) (hc : blank c = true) :
    words blank (s ++ c :: t) = words blank s ++ words blank t := by
  rw [words, List.splitOnP_append_cons s t hc, List.filter_append, words, words]

theorem words_cons (s : List α) (hc : blank c = true) : words blank (c :: s) = words blank s :=
  words_append_cons [] s hc

theorem words_of_notBlank (hw : ∀ c ∈ w, blank c = false) (hne : w ≠ []) :
    words blank w = [w] := by
  rw [words, List.splitOnP_eq_singleton hw]
  simp [hne]

theorem words_dropWhile (blank : α → Bool) (s : List α) :
    words blank (s.dropWhile blank) = words blank s := by
  induction s with
  | nil => rfl
  | cons c s ih =>
      rw [List.dropWhile_cons]
      split_ifs with hc
      · rw [ih, words_cons s hc]
      · rfl

theorem words_takeWhile (blank : α → Bool) (s : List α) :
    words blank s = words blank (s.takeWhile (!blank ·)) ++ words blank (s.dropWhile (!blank ·)) := by
  have htext := List.takeWhile_append_dropWhile (p := (!blank ·)) (l := s)
  cases hrest : s.dropWhile (!blank ·) with
  | nil =>
      rw [hrest, List.append_nil] at htext
      rw [htext]
      exact (List.append_nil _).symm
  | cons c t =>
      have hc : blank c = true := by
        have hhead := List.head?_dropWhile_not (!blank ·) s
        rw [hrest] at hhead
        simpa using hhead
      rw [words_cons t hc, ← words_append_cons _ t hc, ← hrest, htext]

/-- Extraction takes the words one by one; without words it gets the empty one. -/
theorem extract_eq (blank : α → Bool) (s : List α) :
    (extract blank s).1 = (words blank s).headD [] ∧
      words blank (extract blank s).2 = (words blank s).tail := by
  rw [← words_dropWhile blank s, extract]
  have hhead := List.head?_dropWhile_not blank s
  generalize s.dropWhile blank = u at hhead
  rw [words_takeWhile blank u]
  cases u with
  | nil => exact ⟨rfl, rfl⟩
  | cons c u =>
      have hc : blank c = false := hhead
      have hword : words blank ((c :: u).takeWhile (!blank ·)) = [(c :: u).takeWhile (!blank ·)] := by
        refine words_of_notBlank (fun a ha => ?_) (by simp [hc])
        simpa using List.mem_takeWhile_imp ha
      rw [hword]
      exact ⟨rfl, rfl⟩

end Words

end Lines
