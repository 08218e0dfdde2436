import Mathlib.Tactic.Common
import Stencil.Script.Token.Reader

/-!
Blanks beside the other classes of characters.
-/

namespace Stencil

namespace Text

/-- The code points of the blanks. -/
def blankCodes : List ℕ :=
  [9, 10, 11, 12, 13, 0x20, 0x85, 0xA0, 0x1680, 0x2000, 0x2001, 0x2002, 0x2003, 0x2004, 0x2005,
   0x2006, 0x2007, 0x2008, 0x2009, 0x200A, 0x2028, 0x2029, 0x202F, 0x205F, 0x3000]

lemma mem_blankCodes {c : Char} (h : isBlank c = true) : c.toNat ∈ blankCodes := by
  simp only [isBlank, Bool.or_eq_true, Bool.and_eq_true, decide_eq_true_eq, beq_iff_eq] at h
  simp only [blankCodes, List.mem_cons, List.not_mem_nil, or_false]
  omega

/-- A property that no blank has. -/
lemma eq_false_of_isBlank {p : Char → Bool} (hp : ∀ n ∈ blankCodes, p (Char.ofNat n) = false)
    {c : Char} (h : isBlank c = true) : p c = false := by
  have hc := hp _ (mem_blankCodes h)
  rwa [Char.ofNat_toNat] at hc

lemma isWord_eq_false {c : Char} (h : isBlank c = true) : isWord c = false :=
  eq_false_of_isBlank (by decide +kernel) h

end Text

lemma Script.isIdentPart_eq_false {c : Char} (h : Text.isBlank c = true) : isIdentPart c = false :=
  Text.eq_false_of_isBlank (by decide +kernel) h

end Stencil
