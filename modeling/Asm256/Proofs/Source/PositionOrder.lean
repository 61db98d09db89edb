/-
The order of places in a text.

A place comes before another on an earlier line, or on the same line in an
earlier column.  Reading on never moves back (`Position.not_before_after`), and
moves forward as soon as one character is no tab (`Position.before_after`): a
tab of width zero stays where it is.
-/
import Asm256.Source.Position
import Mathlib

namespace Asm256.Position

/-- The place `p` comes before the place `q`. -/
def Before (p q : Position) : Prop :=
  p.line < q.line ∨ (p.line = q.line ∧ p.column < q.column)

instance (p q : Position) : Decidable (p.Before q) := inferInstanceAs (Decidable (_ ∨ _))

variable {w : Nat} {p q r : Position}

theorem Before.asymm (h : p.Before q) : ¬ q.Before p := by
  unfold Before at *
  omega

theorem before_of_not_before (h : p.Before q) (h' : ¬ r.Before q) : p.Before r := by
  unfold Before at *
  omega

theorem not_before_advance (w : Nat) (p : Position) (c : Char) : ¬ (p.advance w c).Before p := by
  unfold Before advance
  split
  · simp
  · split <;> simp

theorem before_advance {c : Char} (hc : c ≠ '\t') : p.Before (p.advance w c) := by
  unfold Before advance
  rw [if_neg hc]
  split <;> simp

/-- Reading on never moves back. -/
theorem not_before_after (w : Nat) (p : Position) (text : List Char) :
    ¬ (p.after w text).Before p := by
  induction text generalizing p with
  | nil =>
    intro h
    exact h.asymm h
  | cons c text ih =>
    intro h
    rw [after_cons] at h
    -- a place before `p` is before everything that is not before `p`
    exact ih _ (before_of_not_before h (not_before_advance w p c))

/-- A character that is no tab moves the place forward, whatever follows it. -/
theorem before_after {c : Char} {text : List Char} (hc : c ≠ '\t') :
    p.Before (p.after w (c :: text)) := by
  rw [after_cons]
  exact before_of_not_before (before_advance hc) (not_before_after w _ text)

end Asm256.Position
