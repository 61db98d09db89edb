/-
The classes of characters by code point.

Blanks, digits and the characters of names are disjoint classes, and none of
them holds the characters that open comments and literals or separate
statements.
-/
import Asm256.Source.Item
import Mathlib

namespace Asm256

theorem Text.isBlank_iff {c : Char} :
    isBlank c ↔ 0x09 ≤ c.toNat ∧ c.toNat ≤ 0x0D ∨ 0x1C ≤ c.toNat ∧ c.toNat ≤ 0x20 ∨ c.toNat = 0x85 ∨
      c.toNat = 0xA0 ∨ c.toNat = 0x1680 ∨ 0x2000 ≤ c.toNat ∧ c.toNat ≤ 0x200A ∨
      0x2028 ≤ c.toNat ∧ c.toNat ≤ 0x2029 ∨ c.toNat = 0x202F ∨ c.toNat = 0x205F ∨
      c.toNat = 0x3000 := by
  simp only [isBlank, blankRanges, List.any_cons, List.any_nil, Bool.or_false, Bool.or_eq_true,
    Bool.and_eq_true, decide_eq_true_eq]
  omega

theorem Decimal.isDigit_iff {c : Char} : isDigit c ↔ 0x30 ≤ c.toNat ∧ c.toNat ≤ 0x39 := by
  simp only [isDigit, Bool.and_eq_true, decide_eq_true_eq, Char.le_def, UInt32.le_iff_toNat_le]
  exact Iff.rfl

theorem Item.isNameChar_iff {c : Char} :
    isNameChar c ↔ 0x61 ≤ c.toNat ∧ c.toNat ≤ 0x7A ∨ 0x41 ≤ c.toNat ∧ c.toNat ≤ 0x5A ∨
      c.toNat = 0x5F := by
  simp only [isNameChar, Bool.or_eq_true, Bool.and_eq_true, decide_eq_true_eq, beq_iff_eq,
    Char.le_def, UInt32.le_iff_toNat_le, or_assoc]
  rw [← Char.toNat_inj (d := '_')]
  exact Iff.rfl

/-- A printable character of the basic alphabet is no blank. -/
theorem Text.isBlank_eq_false {c : Char} (h : 0x21 ≤ c.toNat) (h' : c.toNat < 0x7F) :
    isBlank c = false := by
  rw [Bool.eq_false_iff]
  intro hb
  have := isBlank_iff.1 hb
  omega

theorem Decimal.isDigit_eq_false {c : Char} (h : c.toNat < 0x30 ∨ 0x39 < c.toNat) :
    isDigit c = false := by
  rw [Bool.eq_false_iff]
  intro hd
  have := isDigit_iff.1 hd
  omega

theorem Char.ne_of_toNat {c d : Char} (h : c.toNat ≠ d.toNat) : c ≠ d := by
  rintro rfl
  exact h rfl

end Asm256
