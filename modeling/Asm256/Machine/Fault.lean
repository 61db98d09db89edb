/-
Faults: why a machine cannot execute an instruction.
-/
import Asm256.Diagnostic
import Asm256.Text.Decimal

namespace Asm256

/-- What is wrong with a running program. -/
inductive Fault
  | readPastMemory (pc : Int)
  | outOfBoundsRead (offset : Int)
  | outOfBoundsWrite (offset : Int)
  | invalidOpcode (byte pc : Int)
  | invalidRegister (index pc : Int)
  | inputExhausted
  deriving DecidableEq, Repr

namespace Fault

/-- The wording of the fault. -/
def message : Fault → String
  | readPastMemory pc => s!"El programa leyó más allá de la memoria disponible (pc={pc})"
  | outOfBoundsRead offset => s!"Intento de leer la posición de memoria {offset}"
  | outOfBoundsWrite offset => s!"Intento de escribir en la posición de memoria {offset}"
  | invalidOpcode byte pc => s!"Opcode inválido {byte} en la dirección {pc}"
  | invalidRegister index pc => s!"Registro inválido R{index} en la instrucción de la dirección {pc}"
  | inputExhausted => "La entrada terminó antes de leer un valor válido (0-255)"

/-- Advice on the fault. -/
def hint : Fault → Option String
  | readPastMemory _ => some "¿falta la instrucción 'HALT'?"
  | _ => none

/-- The report on the fault. -/
def diagnostic (f : Fault) : Diagnostic := { message := f.message, hint := f.hint }

end Fault

/-- Why an instruction is not executed: a fault of the program, or a numeral in the input that is
too long to convert. -/
inductive Trap
  | fault (f : Fault)
  | tooLong (e : Decimal.TooLong)
  deriving DecidableEq, Repr

end Asm256
