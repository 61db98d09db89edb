/-
Integers as they are typed.

A sign may stand in front of the digits, single underscores between them, and
blanks around it all; the digits may be of any script.  The four separators of
fields and records are no blanks here.
-/
import Asm256.Text.Blank
import Asm256.Text.Decimal
import Asm256.Text.Digit

namespace Asm256.Text

/-- The character may stand around an integer. -/
def isPadding (c : Char) : Bool := isBlank c && !('\x1C' ≤ c && c ≤ '\x1F')

/-- The number of digits with single underscores between them, behind digits of the value `value`
if `afterDigit` holds. -/
def naturalFrom? (value : Nat) (afterDigit : Bool) : List Char → Option Nat
  | [] => if afterDigit then some value else none
  | c :: cs =>
      if c = '_' then if afterDigit then naturalFrom? value false cs else none
      else match digitValue? c with
        | some d => naturalFrom? (10 * value + d) true cs
        | none => none

/-- The number of a numeral without a sign, unless it has too many digits to convert. -/
def natural? (cs : List Char) : Option Nat :=
  if Decimal.maxDigits < cs.countP (· != '_') then none else naturalFrom? 0 false cs

/-- The integer that a text denotes. -/
def integer? (s : String) : Option Int :=
  match ((s.toList.dropWhile isPadding).reverse.dropWhile isPadding).reverse with
  | '-' :: cs => (natural? cs).map fun n => -(n : Int)
  | '+' :: cs => (natural? cs).map fun n => (n : Int)
  | cs => (natural? cs).map fun n => (n : Int)

end Asm256.Text
