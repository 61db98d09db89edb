/-
Reading numbers from the input.

* `LineStream.Short` — no line has more digits than a numeral may have;
* `LineStream.readByte_error` — reading fails at the end of the input, or at a numeral that is too
  long;
* `LineStream.Short.readByte` — the latter does not happen when the lines are short.
-/
import Asm256.Machine.LineStream
import Mathlib

namespace Asm256.LineStream

variable {text line rest : List Char}

/-- No line of the text has more than `Decimal.maxDigits` digits. -/
def Short (text : List Char) : Prop :=
  ∀ line, line <:+: text → '\n' ∉ line → line.countP Decimal.isDigit ≤ Decimal.maxDigits

theorem short_nil : Short [] := fun line hl _ => by
  rw [List.infix_nil.1 hl]
  exact Nat.zero_le _

theorem Short.of_suffix (h : Short text) (hs : rest <:+ text) : Short rest := fun line hl hn =>
  h line (hl.trans hs.isInfix) hn

/-- A line is a stretch of the text without line feeds, and what is behind it ends the text. -/
theorem nextLine?_eq_some (h : nextLine? text = some (line, rest)) :
    line <:+: text ∧ '\n' ∉ line ∧ rest <:+ text := by
  unfold nextLine? at h
  split at h
  · cases h
  · cases h
    have hpre : ((text.takeWhile (· != '\n')).reverse.dropWhile (· == '\r')).reverse
        <+: text.takeWhile (· != '\n') := by
      have hs := List.dropWhile_suffix (l := (text.takeWhile (· != '\n')).reverse) (· == '\r')
      simpa using List.reverse_prefix.2 hs
    refine ⟨(hpre.trans (List.takeWhile_prefix _)).isInfix, fun hmem => ?_, ?_⟩
    · have hne := List.mem_takeWhile_imp (hpre.subset hmem)
      simp at hne
    · exact (List.drop_suffix _ _).trans (List.dropWhile_suffix _)

theorem trimBlanks_isInfix (line : List Char) : Text.trimBlanks line <:+: line := by
  have hs := List.dropWhile_suffix (l := (line.dropWhile Text.isBlank).reverse) Text.isBlank
  have hpre : Text.trimBlanks line <+: line.dropWhile Text.isBlank := by
    simpa [Text.trimBlanks] using List.reverse_prefix.2 hs
  exact hpre.isInfix.trans (List.dropWhile_suffix _).isInfix

/-- A numeral that is too long has its digits on its line. -/
theorem lt_countP_of_byte? {e : Decimal.TooLong} (h : byte? line = .error e) :
    Decimal.maxDigits < line.countP Decimal.isDigit := by
  unfold byte? at h
  extract_lets numeral at h
  have hsuffix : numeral <:+ Text.trimBlanks line := by
    simp only [numeral]
    split
    · next heq =>
      rw [heq]
      exact List.suffix_cons _ _
    · exact List.suffix_refl _
  -- so the digits of the numeral are digits of the line
  have hsub : numeral.Sublist line := hsuffix.sublist.trans (trimBlanks_isInfix line).sublist
  split at h
  · cases h
  · next hdigits =>
    simp only [Bool.or_eq_true, not_or, Bool.not_eq_true, Bool.not_eq_false'] at hdigits
    have hcount : numeral.countP Decimal.isDigit = numeral.length :=
      List.countP_eq_length.2 (by simpa using hdigits.2)
    have hlong : Decimal.maxDigits < numeral.length := by
      by_contra hle
      rw [Decimal.read, if_neg hle] at h
      cases h
    rw [← hcount] at hlong
    exact Nat.lt_of_lt_of_le hlong hsub.countP_le

/-- Reading fails at the end of the input, or at a numeral that is too long. -/
theorem readByte_error {t : Trap} (h : (readByte text).1 = .error t) :
    t = .fault .inputExhausted ∨ ∃ e, t = .tooLong e := by
  fun_induction readByte text with
  | case1 => cases h; exact .inl rfl
  | case2 _ _ _ _ e => cases h; exact .inr ⟨e, rfl⟩
  | case3 => cases h
  | case4 _ _ _ _ _ ih => exact ih h

/-- What is left of the input ends it. -/
theorem readByte_suffix (text : List Char) : (readByte text).2 <:+ text := by
  fun_induction readByte text with
  | case1 => exact List.nil_suffix
  | case2 _ _ _ hl => exact (nextLine?_eq_some hl).2.2
  | case3 _ _ _ hl => exact (nextLine?_eq_some hl).2.2
  | case4 _ _ _ hl _ ih => exact ih.trans (nextLine?_eq_some hl).2.2

/-- No numeral of short lines is too long. -/
theorem Short.readByte (h : Short text) (e : Decimal.TooLong) :
    (LineStream.readByte text).1 ≠ .error (.tooLong e) := by
  fun_induction LineStream.readByte text with
  | case1 => simp
  | case2 text line rest hl e' he =>
    obtain ⟨hline, hn, -⟩ := nextLine?_eq_some hl
    exact absurd (h line hline hn) (Nat.not_le.2 (lt_countP_of_byte? he))
  | case3 => simp
  | case4 text line rest hl _ ih => exact ih (h.of_suffix (nextLine?_eq_some hl).2.2)

end Asm256.LineStream
