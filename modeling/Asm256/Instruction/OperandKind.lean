/-
The kinds of operands.  Only the kinds of its operands decide which operation
a mnemonic stands for; the values come in when the operation is encoded.
-/

namespace Asm256

/-- What an operand denotes. -/
inductive OperandKind
  | register | memory | label | literal
  deriving DecidableEq, Repr

namespace OperandKind

/-- All kinds, in the order in which listings sort them. -/
def all : List OperandKind := [register, memory, label, literal]

/-- The place in the order of listings. -/
def rank : OperandKind → Nat
  | register => 0 | memory => 1 | label => 2 | literal => 3

/-- The kind in words. -/
def text : OperandKind → String
  | register => "registro" | memory => "referencia a memoria"
  | label => "etiqueta" | literal => "literal"

/-- The name of the kind in capitals. -/
def name : OperandKind → String
  | register => "REGISTER" | memory => "MEMORY_REF" | label => "LABEL" | literal => "LITERAL"

/-- The kind named `s`. -/
def ofName? (s : String) : Option OperandKind := all.find? fun k => k.name == s

theorem rank_injective {k l : OperandKind} (h : k.rank = l.rank) : k = l := by
  cases k <;> cases l <;> simp_all [rank]

end OperandKind

end Asm256
