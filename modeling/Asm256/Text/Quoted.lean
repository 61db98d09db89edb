/-
Quoted texts.

A text is quoted in apostrophes, or in quotation marks if it holds an apostrophe
and no quotation mark.  The mark around the text and the backslash are escaped
by a backslash, line ends and tabs have escapes of their own, and what cannot be
shown is written by its code point.
-/
import Asm256.Byte.Numeral
import Asm256.Text.Printable

namespace Asm256.Text

/-- The last `width` hexadecimal digits of a number. -/
def hexCode (width n : Nat) : List Char :=
  (List.range width).reverse.map fun i => Nat.digitChar (n / Nat.pow 16 i % 16)

/-- A character between the marks `mark`. -/
def escape (mark c : Char) : List Char :=
  if c = mark ∨ c = '\\' then ['\\', c]
  else if c = '\n' then ['\\', 'n']
  else if c = '\r' then ['\\', 'r']
  else if c = '\t' then ['\\', 't']
  else if isPrintable c then [c]
  else if c.toNat < 0x100 then '\\' :: 'x' :: hexCode 2 c.toNat
  else if c.toNat < 0x10000 then '\\' :: 'u' :: hexCode 4 c.toNat
  else '\\' :: 'U' :: hexCode 8 c.toNat

/-- The text in quotes. -/
def quoted (s : String) : String :=
  let cs := s.toList
  let mark := if cs.contains '\'' && !cs.contains '"' then '"' else '\''
  String.ofList (mark :: cs.flatMap (escape mark) ++ [mark])

end Asm256.Text
