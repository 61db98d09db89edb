/-
Columns of text.
-/

namespace Asm256.Text

/-- The text with spaces in front, so that it is at least `width` characters wide. -/
def padLeft (width : Nat) (s : String) : String := "".pushn ' ' (width - s.length) ++ s

/-- The text with spaces behind, so that it is at least `width` characters wide. -/
def padRight (width : Nat) (s : String) : String := s.pushn ' ' (width - s.length)

end Asm256.Text
