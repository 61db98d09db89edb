/-
Places in a source text.

Lines and columns count from 1, columns by characters; a tab counts for as many
columns as the reader says.  The position after a text is a fold over its
characters, so it can be taken piece by piece (`Position.after_append`).
-/

namespace Asm256

/-- A line and a column. -/
structure Position where
  line : Nat
  column : Nat
  deriving DecidableEq, Repr

namespace Position

/-- The place of the first character. -/
def start : Position := ⟨1, 1⟩

/-- The place after one more character. -/
def advance (tabWidth : Nat) (p : Position) (c : Char) : Position :=
  if c = '\n' then ⟨p.line + 1, 1⟩
  else if c = '\t' then ⟨p.line, p.column + tabWidth⟩
  else ⟨p.line, p.column + 1⟩

/-- The place after more text. -/
def after (tabWidth : Nat) (p : Position) (text : List Char) : Position :=
  text.foldl (advance tabWidth) p

@[simp] theorem after_nil (tabWidth : Nat) (p : Position) : p.after tabWidth [] = p := rfl

theorem after_cons (tabWidth : Nat) (p : Position) (c : Char) (text : List Char) :
    p.after tabWidth (c :: text) = (p.advance tabWidth c).after tabWidth text := rfl

/-- Two texts move the place as their concatenation does. -/
theorem after_append (tabWidth : Nat) (p : Position) (s t : List Char) :
    p.after tabWidth (s ++ t) = (p.after tabWidth s).after tabWidth t :=
  List.foldl_append

end Position

end Asm256
