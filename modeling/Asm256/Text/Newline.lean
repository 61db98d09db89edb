/-
Line ends.
-/

namespace Asm256.Text

/-- The text with a line feed for each carriage return, alone or in front of a line feed. -/
def normalizeNewlines : List Char → List Char
  | '\r' :: '\n' :: rest => '\n' :: normalizeNewlines rest
  | '\r' :: rest => '\n' :: normalizeNewlines rest
  | c :: rest => c :: normalizeNewlines rest
  | [] => []

end Asm256.Text
