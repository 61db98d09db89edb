/-
A writer fills a memory byte by byte from its start.

Bytes behind the cursor are zero, and nothing is written past the last byte:
`Writer.write` answers `none` there and the writer stays as it is.
-/
import Asm256.Byte.Arithmetic
import Asm256.Machine.Dimension

namespace Asm256

/-- A memory that is filled up to a cursor. -/
structure Writer where
  memory : Memory := .replicate memorySize 0
  cursor : Nat := 0
  cursor_le : cursor ≤ memorySize := by decide

namespace Writer

/-- A writer at the start of an empty memory. -/
def empty : Writer := {}

/-- Writes the byte of a number at the cursor, unless the memory is full. -/
def write (w : Writer) (value : Int) : Option Writer :=
  if h : w.cursor < memorySize then
    some { memory := w.memory.set w.cursor (Byte.wrap value), cursor := w.cursor + 1, cursor_le := h }
  else none

/-- Writes the bytes of numbers one after the other, unless they do not fit. -/
def writeAll (w : Writer) (values : List Int) : Option Writer := values.foldlM write w

end Writer

end Asm256
