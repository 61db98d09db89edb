/-
Numerals of fixed width for bytes: two hexadecimal digits, or eight binary
digits.  Numbers of any size are written by their byte, and lists of them with
one numeral on a line.
-/
import Asm256.Byte.Arithmetic

namespace Asm256.Byte

/-- The two hexadecimal digits of a byte, in lower case. -/
def hexDigits (b : UInt8) : List Char :=
  [Nat.digitChar (b.toNat / 16), Nat.digitChar (b.toNat % 16)]

/-- The eight binary digits of a byte, the highest first. -/
def binaryDigits (b : UInt8) : List Char :=
  [7, 6, 5, 4, 3, 2, 1, 0].map fun i => Nat.digitChar (b.toNat / Nat.pow 2 i % 2)

/-- The byte of `x` in hexadecimal, without a mark in front. -/
def bareHex (x : Int) : String := String.ofList (hexDigits (wrap x))

/-- The byte of `x` in hexadecimal, marked by `0x`. -/
def hex (x : Int) : String := "0x" ++ bareHex x

/-- The byte of `x` in binary. -/
def binary (x : Int) : String := String.ofList (binaryDigits (wrap x))

/-- The bytes of numbers in hexadecimal, one on a line. -/
def hexLines (xs : List Int) : List String := xs.map hex

/-- The bytes of numbers in binary, one on a line. -/
def binaryLines (xs : List Int) : List String := xs.map binary

end Asm256.Byte
