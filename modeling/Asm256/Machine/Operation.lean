/-
Operations: what the opcodes of the machine do.

Opcodes that differ only in where they take an operand from, in what they
compute, or in when they branch are one operation each (`Opcode.operation`).
-/
import Asm256.Instruction.Opcode

namespace Asm256

/-- Operations on two bytes. -/
inductive Arithmetic
  | add | sub | and | or | xor | shiftLeft | shiftRight
  deriving DecidableEq, Repr

/-- The result of an operation on two bytes.  Shift amounts count modulo 8. -/
def Arithmetic.apply : Arithmetic → UInt8 → UInt8 → UInt8
  | add, a, b => a + b
  | sub, a, b => a - b
  | and, a, b => a &&& b
  | or, a, b => a ||| b
  | xor, a, b => a ^^^ b
  | shiftLeft, a, b => a <<< (b % 8)
  | shiftRight, a, b => a >>> (b % 8)

/-- How an operand is given: by the number of its register, or by its value. -/
inductive Addressing
  | register | literal
  deriving DecidableEq, Repr

/-- When a branch is taken. -/
inductive Condition
  | always | equal | notEqual | greater | less
  deriving DecidableEq, Repr

/-- Whether a branch is taken after a comparison with this difference and borrow. -/
def Condition.holds (difference : UInt8) (borrow : Bool) : Condition → Bool
  | always => true
  | equal => difference == 0
  | notEqual => difference != 0
  | greater => difference != 0 && !borrow
  | less => borrow

/-- What an instruction does. -/
inductive Operation
  | nop
  | halt
  | load
  | store
  | compute (f : Arithmetic) (mode : Addressing)
  | move (mode : Addressing)
  | complement (mode : Addressing)
  | compare (mode : Addressing)
  | branch (c : Condition)
  | printRegister
  | printMemory
  | inputRegister
  | inputMemory
  deriving DecidableEq, Repr

/-- What an opcode does. -/
def Opcode.operation : Opcode → Operation
  | nop => .nop
  | halt => .halt
  | ldr => .load
  | str => .store
  | addRegister => .compute .add .register
  | addLiteral => .compute .add .literal
  | subRegister => .compute .sub .register
  | subLiteral => .compute .sub .literal
  | andRegister => .compute .and .register
  | andLiteral => .compute .and .literal
  | orrRegister => .compute .or .register
  | orrLiteral => .compute .or .literal
  | eorRegister => .compute .xor .register
  | eorLiteral => .compute .xor .literal
  | lslRegister => .compute .shiftLeft .register
  | lslLiteral => .compute .shiftLeft .literal
  | lsrRegister => .compute .shiftRight .register
  | lsrLiteral => .compute .shiftRight .literal
  | movRegister => .move .register
  | movLiteral => .move .literal
  | mvnRegister => .complement .register
  | mvnLiteral => .complement .literal
  | cmpRegister => .compare .register
  | cmpLiteral => .compare .literal
  | b => .branch .always
  | beq => .branch .equal
  | bne => .branch .notEqual
  | bgt => .branch .greater
  | blt => .branch .less
  | printRegister => .printRegister
  | printMemory => .printMemory
  | inputRegister => .inputRegister
  | inputMemory => .inputMemory

end Asm256
