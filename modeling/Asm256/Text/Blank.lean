/-
Blank characters.

The class holds the space characters of Unicode together with the controls
that separate lines, fields and records, and the next-line control.  A blank
between two tokens means nothing, except that a line feed ends a statement.
-/

namespace Asm256.Text

/-- The inclusive ranges of code points of the blank characters. -/
def blankRanges : List (Nat × Nat) :=
  [(0x09, 0x0D), (0x1C, 0x20), (0x85, 0x85), (0xA0, 0xA0), (0x1680, 0x1680), (0x2000, 0x200A),
   (0x2028, 0x2029), (0x202F, 0x202F), (0x205F, 0x205F), (0x3000, 0x3000)]

/-- The character is blank. -/
def isBlank (c : Char) : Bool :=
  blankRanges.any fun (lo, hi) => lo ≤ c.toNat && c.toNat ≤ hi

/-- The text without the blanks at its two ends. -/
def trimBlanks (cs : List Char) : List Char :=
  ((cs.dropWhile isBlank).reverse.dropWhile isBlank).reverse

end Asm256.Text
