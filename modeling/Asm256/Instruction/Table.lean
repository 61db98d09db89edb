/-
The instruction table: the signatures of the assembly language.
-/
import Asm256.Instruction.SignatureTree

namespace Asm256.SignatureTree

open OperandKind in
/-- Every mnemonic with the operand kinds it takes and the opcode they choose. -/
def table : List (Mnemonic × List OperandKind × Opcode) :=
  [(.nop, [], .nop),
   (.ldr, [register, memory], .ldr),
   (.str, [register, memory], .str),
   (.add, [register, register, register], .addRegister),
   (.add, [register, register, literal], .addLiteral),
   (.sub, [register, register, register], .subRegister),
   (.sub, [register, register, literal], .subLiteral),
   (.mov, [register, register], .movRegister),
   (.mov, [register, literal], .movLiteral),
   (.cmp, [register, register], .cmpRegister),
   (.cmp, [register, literal], .cmpLiteral),
   (.b, [label], .b),
   (.beq, [label], .beq),
   (.bne, [label], .bne),
   (.bgt, [label], .bgt),
   (.blt, [label], .blt),
   (.and, [register, register, register], .andRegister),
   (.and, [register, register, literal], .andLiteral),
   (.orr, [register, register, register], .orrRegister),
   (.orr, [register, register, literal], .orrLiteral),
   (.eor, [register, register, register], .eorRegister),
   (.eor, [register, register, literal], .eorLiteral),
   (.mvn, [register, register], .mvnRegister),
   (.mvn, [register, literal], .mvnLiteral),
   (.lsl, [register, register, register], .lslRegister),
   (.lsl, [register, register, literal], .lslLiteral),
   (.lsr, [register, register, register], .lsrRegister),
   (.lsr, [register, register, literal], .lsrLiteral),
   (.print, [register], .printRegister),
   (.print, [memory], .printMemory),
   (.input, [register], .inputRegister),
   (.input, [memory], .inputMemory),
   (.halt, [], .halt)]

/-- The frozen tree of the language. -/
def standard : SignatureTree :=
  (table.foldl (fun t row => t.insert row.1 row.2.1 row.2.2) empty).freeze

end Asm256.SignatureTree
