import Mathlib

/-!
# The C++ types of the interfaces

A `std::string` and a `std::vector<uint8_t>` are both sequences of bytes, and a `std::map` is a tree
ordered by its keys: a string key by the bytes it is made of.
-/

namespace Shapeware

abbrev StdString := List UInt8

/-- The bytes of a string literal. -/
def bytes (literal : String) : StdString := literal.toUTF8.toList

/-- `c_str()`, as a function reads it that stops at the first zero byte. -/
def cStr (s : StdString) : StdString := s.takeWhile (· ≠ 0)

@[simp] theorem cStr_nil : cStr [] = [] := rfl

theorem cStr_append (s t : StdString) :
    cStr (s ++ t) = if 0 ∈ s then cStr s else s ++ cStr t := by
  induction s with
  | nil => simp
  | cons c s ih =>
      rw [List.cons_append]
      unfold cStr at ih ⊢
      by_cases hc : c = 0
      · simp [hc]
      · rw [List.takeWhile_cons_of_pos (by simpa using hc),
          List.takeWhile_cons_of_pos (by simpa using hc), ih]
        simp only [List.mem_cons, Ne.symm hc, false_or]
        split_ifs <;> rfl

theorem cStr_of_notMem {s : StdString} (h : 0 ∉ s) : cStr s = s := by
  simpa [h, cStr] using cStr_append s []

/-- `std::map<κ, β>`: one value for each key, iterated in the order of the keys. -/
abbrev StdMap (κ β : Type) [Ord κ] := Std.ExtTreeMap κ β compare

section StdMap

variable {κ β : Type} [Ord κ] [Std.TransOrd κ] [Std.LawfulEqOrd κ] [DecidableEq κ]

theorem stdMap_getElem?_insert (map : StdMap κ β) (key k : κ) (value : β) :
    (map.insert key value)[k]? = if k = key then some value else map[k]? := by
  rw [Std.ExtTreeMap.getElem?_insert]
  exact if_congr (Std.LawfulEqOrd.compare_eq_iff_eq.trans eq_comm) rfl rfl

/-- `insert` keeps the value of a key that is there already. -/
theorem stdMap_getElem?_insertIfNew (map : StdMap κ β) (key k : κ) (value : β)
    (hnew : map[key]? = none) :
    (map.insertIfNew key value)[k]? = if k = key then some value else map[k]? := by
  have habsent : key ∉ map := by simpa using hnew
  rw [Std.ExtTreeMap.getElem?_insertIfNew]
  refine if_congr ?_ rfl rfl
  rw [and_iff_left habsent]
  exact Std.LawfulEqOrd.compare_eq_iff_eq.trans eq_comm

theorem stdMap_getElem?_erase (map : StdMap κ β) (key k : κ) :
    (map.erase key)[k]? = if k = key then none else map[k]? := by
  rw [Std.ExtTreeMap.getElem?_erase]
  exact if_congr (Std.LawfulEqOrd.compare_eq_iff_eq.trans eq_comm) rfl rfl

end StdMap

/-- The conversion of an `int` to a 64 bit `size_t`, as a comparison of the two makes it. -/
def toSizeT (value : Int) : Nat := (value % 2 ^ 64).toNat

end Shapeware
