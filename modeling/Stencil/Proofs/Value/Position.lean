import Mathlib.Tactic.Common
import Stencil.Proofs.Decimal.Whole
import Stencil.Value.Property

/-!
Whole numbers as positions in a sequence. A position goes through the text of its number and is
read back from it.
-/

namespace Stencil

lemma Decimal.readNat?_toString {n bound : ℕ} (h : n < bound) :
    readNat? bound (toString n).toList = some n := by
  have htext : (toString n).toList = Nat.toDigits 10 n := by
    rw [Nat.toString_eq_ofList_toDigits, String.toList_ofList]
  have hdigits : ∀ c ∈ Nat.toDigits 10 n, c.isDigit = true := fun c hc =>
    Nat.isDigit_of_mem_toDigits (by omega) (by omega) hc
  have hvalue : ofDigits (Nat.toDigits 10 n) = n := by
    rw [ofDigits, ← Nat.ofDigitChars_eq_foldl, Nat.ofDigitChars_ten_toDigits]
  obtain ⟨c, cs, hcs⟩ := List.exists_cons_of_ne_nil (Nat.toDigits_ne_nil (n := n) (b := 10))
  have hc : c ≠ '+' := by
    rintro rfl
    have hplus := hdigits '+' (by simp [hcs])
    revert hplus
    decide
  rw [htext]
  unfold readNat?
  split
  · rename_i rest heq
    rw [hcs] at heq
    exact (hc (List.cons.inj heq).1).elim
  · have hall : (Nat.toDigits 10 n).all Char.isDigit = true := List.all_eq_true.mpr hdigits
    have hempty : (Nat.toDigits 10 n).isEmpty = false := by rw [hcs]; rfl
    simp [hall, hempty, hvalue, h]

namespace Value

lemma position?_toString {n : ℕ} (h : n < 2 ^ 64) : position? (toString n) = some n :=
  Decimal.readNat?_toString h

/-- The element at a position, and null beyond the last one. -/
lemma getIndex_arr {n : ℕ} (items : List Value) (h : n < 2 ^ 64) :
    (arr items).getIndex (int n) = .ok (items[n]?.getD .null) := by
  have hkey : (int n).propertyKey = toString n := rfl
  have hne : toString n ≠ "length" := by
    intro heq
    have hlength : position? "length" = none := by decide
    rw [← heq, position?_toString h] at hlength
    cases hlength
  rw [getIndex, hkey, getProperty, if_neg hne, element?, position?_toString h]
  rfl

/-! ### Counting -/

lemma toNumber_int (i : Int) : (int i).toNumber = Decimal.ofInt i := rfl

/-- Whole numbers below `2 ^ 53` are compared as numbers. -/
lemma ordered_isLT_int {n m : ℕ} (hn : n < 2 ^ 53) (hm : m < 2 ^ 53) :
    ordered Ordering.isLT (int n) (int m) = .bool (decide (n < m)) := by
  have hlt : Decimal.ofInt n < Decimal.ofInt m ↔ n < m := Decimal.ofInt_lt hn hm
  have hcompare : compare (int n) (int m) = compareFloats (Decimal.ofInt n) (Decimal.ofInt m) := rfl
  rw [ordered, hcompare, compareFloats]
  by_cases h : n < m
  · rw [if_pos (hlt.mpr h), decide_eq_true h]
    rfl
  · rw [if_neg (hlt.not.mpr h), decide_eq_false h]
    split_ifs <;> rfl

/-- The number after a whole number below `2 ^ 53`. -/
lemma ofFloat_toNumber_add_one {n : ℕ} (h : n + 1 < 2 ^ 53) :
    ofFloat ((int n).toNumber + 1) = int (n + 1 : ℕ) := by
  rw [toNumber_int, Decimal.ofInt_add_one h, ofFloat_ofInt (by omega)]

end Value

end Stencil
