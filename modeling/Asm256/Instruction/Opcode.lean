/-
The opcodes of the machine.

Each opcode is one operation with fixed kinds of operands.  `Opcode.toByte` is
the code of an opcode in memory; the codes are the bytes below
`Opcode.count`, and `Opcode.ofByte?` reads them back.
-/

namespace Asm256

/-- The operations of the machine. -/
inductive Opcode
  | nop | ldr | str
  | addRegister | addLiteral | subRegister | subLiteral
  | movRegister | movLiteral | cmpRegister | cmpLiteral
  | b | beq | bne | bgt | blt
  | andRegister | andLiteral | orrRegister | orrLiteral | eorRegister | eorLiteral
  | mvnRegister | mvnLiteral | lslRegister | lslLiteral | lsrRegister | lsrLiteral
  | printRegister | printMemory | inputRegister | inputMemory
  | halt
  deriving DecidableEq, Repr

namespace Opcode

/-- All opcodes, by ascending byte. -/
def all : List Opcode :=
  [nop, ldr, str, addRegister, addLiteral, subRegister, subLiteral, movRegister, movLiteral,
   cmpRegister, cmpLiteral, b, beq, bne, bgt, blt, andRegister, andLiteral, orrRegister, orrLiteral,
   eorRegister, eorLiteral, mvnRegister, mvnLiteral, lslRegister, lslLiteral, lsrRegister, lsrLiteral,
   printRegister, printMemory, inputRegister, inputMemory, halt]

/-- The number of opcodes. -/
def count : Nat := all.length

/-- The byte that stands for an opcode in memory. -/
def toByte : Opcode → UInt8
  | nop => 0x00 | ldr => 0x01 | str => 0x02
  | addRegister => 0x03 | addLiteral => 0x04 | subRegister => 0x05 | subLiteral => 0x06
  | movRegister => 0x07 | movLiteral => 0x08 | cmpRegister => 0x09 | cmpLiteral => 0x0A
  | b => 0x0B | beq => 0x0C | bne => 0x0D | bgt => 0x0E | blt => 0x0F
  | andRegister => 0x10 | andLiteral => 0x11 | orrRegister => 0x12 | orrLiteral => 0x13
  | eorRegister => 0x14 | eorLiteral => 0x15 | mvnRegister => 0x16 | mvnLiteral => 0x17
  | lslRegister => 0x18 | lslLiteral => 0x19 | lsrRegister => 0x1A | lsrLiteral => 0x1B
  | printRegister => 0x1C | printMemory => 0x1D | inputRegister => 0x1E | inputMemory => 0x1F
  | halt => 0x20

/-- The opcode that a byte stands for. -/
def ofByte? (byte : UInt8) : Option Opcode := all.find? fun op => op.toByte == byte

/-- The name of the opcode in capitals. -/
def name : Opcode → String
  | nop => "NOP" | ldr => "LDR" | str => "STR"
  | addRegister => "ADD_REGISTER" | addLiteral => "ADD_LITERAL"
  | subRegister => "SUB_REGISTER" | subLiteral => "SUB_LITERAL"
  | movRegister => "MOV_REGISTER" | movLiteral => "MOV_LITERAL"
  | cmpRegister => "CMP_REGISTER" | cmpLiteral => "CMP_LITERAL"
  | b => "B" | beq => "BEQ" | bne => "BNE" | bgt => "BGT" | blt => "BLT"
  | andRegister => "AND_REGISTER" | andLiteral => "AND_LITERAL"
  | orrRegister => "ORR_REGISTER" | orrLiteral => "ORR_LITERAL"
  | eorRegister => "EOR_REGISTER" | eorLiteral => "EOR_LITERAL"
  | mvnRegister => "MVN_REGISTER" | mvnLiteral => "MVN_LITERAL"
  | lslRegister => "LSL_REGISTER" | lslLiteral => "LSL_LITERAL"
  | lsrRegister => "LSR_REGISTER" | lsrLiteral => "LSR_LITERAL"
  | printRegister => "PRINT_REGISTER" | printMemory => "PRINT_MEMORY"
  | inputRegister => "INPUT_REGISTER" | inputMemory => "INPUT_MEMORY"
  | halt => "HALT"

/-- The opcode named `s`. -/
def ofName? (s : String) : Option Opcode := all.find? fun op => op.name == s

theorem mem_all (op : Opcode) : op ∈ all := by cases op <;> decide

theorem ofByte?_toByte (op : Opcode) : ofByte? op.toByte = some op := by cases op <;> rfl

theorem toByte_of_ofByte? {byte : UInt8} {op : Opcode} (h : ofByte? byte = some op) :
    op.toByte = byte := by
  simpa using List.find?_some h

theorem toByte_injective {op op' : Opcode} (h : op.toByte = op'.toByte) : op = op' := by
  have hop := ofByte?_toByte op
  rw [h, ofByte?_toByte] at hop
  exact (Option.some.inj hop).symm

theorem toByte_lt (op : Opcode) : op.toByte.toNat < count := by cases op <;> decide

/-- The bytes below the number of opcodes are those of opcodes. -/
theorem exists_toByte_iff {byte : UInt8} :
    (∃ op : Opcode, op.toByte = byte) ↔ byte.toNat < count := by
  constructor
  · rintro ⟨op, rfl⟩
    exact op.toByte_lt
  · intro hlt
    have hall : ∀ i : Fin count, (all.get i).toByte.toNat = i.val := by decide
    exact ⟨_, UInt8.toNat_inj.1 (hall ⟨byte.toNat, hlt⟩)⟩

end Opcode

end Asm256
