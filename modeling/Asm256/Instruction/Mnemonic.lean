/-
The mnemonics of the assembly language.

A mnemonic names a family of operations; which member is meant depends on the
kinds of its operands.  Names are spelled in capitals and are matched exactly.
-/

namespace Asm256

/-- The words that start a statement. -/
inductive Mnemonic
  | nop | ldr | str | add | sub | mov | cmp | b | beq | bne | bgt | blt
  | and | orr | eor | mvn | lsl | lsr | print | input | halt
  deriving DecidableEq, Repr

namespace Mnemonic

/-- All mnemonics. -/
def all : List Mnemonic :=
  [nop, ldr, str, add, sub, mov, cmp, b, beq, bne, bgt, blt,
   and, orr, eor, mvn, lsl, lsr, print, input, halt]

/-- The spelling in source text. -/
def name : Mnemonic → String
  | nop => "NOP" | ldr => "LDR" | str => "STR" | add => "ADD" | sub => "SUB" | mov => "MOV"
  | cmp => "CMP" | b => "B" | beq => "BEQ" | bne => "BNE" | bgt => "BGT" | blt => "BLT"
  | and => "AND" | orr => "ORR" | eor => "EOR" | mvn => "MVN" | lsl => "LSL" | lsr => "LSR"
  | print => "PRINT" | input => "INPUT" | halt => "HALT"

/-- The mnemonic spelled `s`. -/
def ofName? (s : String) : Option Mnemonic := all.find? fun m => m.name == s

theorem mem_all (m : Mnemonic) : m ∈ all := by cases m <;> decide

theorem ofName?_name (m : Mnemonic) : ofName? m.name = some m := by cases m <;> rfl

end Mnemonic

end Asm256
