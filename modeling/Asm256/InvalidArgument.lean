/-
Arguments outside the domain of an operation.
-/
import Asm256.Instruction.Mnemonic
import Asm256.Instruction.Opcode
import Asm256.Machine.Dimension

namespace Asm256

/-- A value that an operation does not take. -/
inductive InvalidArgument
  | unknownMnemonic (name : String)
  | unknownByte (byte : Int)
  | registerNumber (n : Int)
  | tabWidth
  | memorySize
  | registerCount
  | codeSize
  deriving DecidableEq, Repr

/-- The wording of the error. -/
def InvalidArgument.message : InvalidArgument → String
  | unknownMnemonic name => s!"Mnemónico desconocido: {name}"
  | unknownByte byte => s!"Byte {byte} no corresponde a ningún opcode"
  | registerNumber n =>
      s!"Registro inválido: R{n} (debe estar en el rango 0-{Asm256.registerCount - 1})"
  | tabWidth => "tab_width no puede ser negativo"
  | memorySize => s!"La memoria debe tener {Asm256.memorySize} bytes"
  | registerCount => s!"Se esperaban {Asm256.registerCount} registros"
  | codeSize => "program_bytes fuera de rango"

/-- The mnemonic of a name. -/
def Mnemonic.named (name : String) : Except InvalidArgument Mnemonic :=
  match ofName? name with
  | some m => .ok m
  | none => .error (.unknownMnemonic name)

/-- The opcode of a number, which has to be its byte. -/
def Opcode.coded (n : Int) : Except InvalidArgument Opcode :=
  match all.find? fun op => (op.toByte.toNat : Int) = n with
  | some op => .ok op
  | none => .error (.unknownByte n)

/-- The register of a number. -/
def registerNumbered (n : Int) : Except InvalidArgument (Fin registerCount) :=
  if h : 0 ≤ n ∧ n < registerCount then .ok ⟨n.toNat, by omega⟩
  else .error (.registerNumber n)

/-- The columns that a tab counts for unless something else is asked for. -/
def defaultTabWidth : Nat := 4

/-- The tab width of a number, which must not be negative. -/
def checkTabWidth (n : Int) : Except InvalidArgument Nat :=
  if 0 ≤ n then .ok n.toNat else .error .tabWidth

end Asm256
