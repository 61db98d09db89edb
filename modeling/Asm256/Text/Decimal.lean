/-
Decimal numerals.

A numeral is a run of the digits 0 to 9, leading zeros included.  Numerals of
more than `Decimal.maxDigits` digits are not converted: `Decimal.read` answers
with their length, which is an error of its own and not one of the program
that holds the numeral.
-/

namespace Asm256.Decimal

/-- The character is one of the digits 0 to 9. -/
def isDigit (c : Char) : Bool := '0' ≤ c && c ≤ '9'

/-- The longest numeral that is converted. -/
def maxDigits : Nat := 4300

/-- A numeral of `count` digits is too long to convert. -/
structure TooLong where
  count : Nat
  deriving DecidableEq, Repr

/-- The number that a run of digits denotes. -/
def value (digits : List Char) : Nat :=
  digits.foldl (fun n c => 10 * n + (c.toNat - '0'.toNat)) 0

/-- The number that a run of digits denotes, unless the run is too long. -/
def read (digits : List Char) : Except TooLong Nat :=
  if maxDigits < digits.length then .error ⟨digits.length⟩ else .ok (value digits)

/-- The wording of the error. -/
def TooLong.message (e : TooLong) : String :=
  s!"Exceeds the limit ({maxDigits} digits) for integer string conversion: "
    ++ s!"value has {e.count} digits; "
    ++ "use sys.set_int_max_str_digits() to increase the limit"

end Asm256.Decimal
