/-
The execution of one instruction.

An instruction takes its bytes from the code one by one, each moving the pc; it
fails at the first byte that is missing or names no register.  Results are
stored last, so an instruction that fails has changed only the pc, and the
input if it reads a number.
-/
import Asm256.Machine.LineStream
import Asm256.Machine.Operation
import Asm256.Machine.State

namespace Asm256

/-- Actions of the machine.  One that fails leaves the state it has reached. -/
abbrev Exec := EStateM Trap Machine

namespace Exec

/-- Fails with a fault. -/
def fault {α : Type} (f : Fault) : Exec α := throw (.fault f)

/-- Takes the next byte of the code. -/
def fetch : Exec UInt8 := do
  let m ← get
  if h : m.pc < m.codeSize then
    have : m.pc < memorySize := Nat.lt_of_lt_of_le h m.codeSize_le
    set { m with pc := m.pc + 1 }
    return m.memory[m.pc]
  else fault (.readPastMemory m.pc)

/-- Takes the number of a register from the code of the instruction at `start`. -/
def fetchRegister (start : Nat) : Exec Register := do
  let byte ← fetch
  if h : byte.toNat < registerCount then return ⟨byte.toNat, h⟩
  else fault (.invalidRegister byte.toNat start)

/-- The contents of a register. -/
def register (r : Register) : Exec UInt8 := do
  return (← get).registers[r]

/-- Takes an operand. -/
def fetchOperand (start : Nat) : Addressing → Exec UInt8
  | .register => do register (← fetchRegister start)
  | .literal => fetch

/-- Stores a byte in a register. -/
def setRegister (r : Register) (value : UInt8) : Exec Unit :=
  modify fun m => { m with registers := m.registers.set r value }

/-- The data byte at an offset. -/
def readData (offset : Int) : Exec UInt8 := do
  let m ← get
  match m.dataAddress? offset with
  | some address => return m.memory[address]
  | none => fault (.outOfBoundsRead offset)

/-- Stores a data byte at an offset. -/
def writeData (offset : Int) (value : UInt8) : Exec Unit := do
  let m ← get
  match m.dataAddress? offset with
  | some address => set { m with memory := m.memory.set address value }
  | none => fault (.outOfBoundsWrite offset)

/-- Reads the next number of the input. -/
def readInput : Exec UInt8 := do
  let m ← get
  let (result, rest) := LineStream.readByte m.input
  set { m with input := rest }
  match result with
  | .ok value => return value
  | .error trap => throw trap

/-- Writes a byte as a line of the output. -/
def print (value : UInt8) : Exec Unit :=
  modify fun m => { m with output := m.output ++ LineStream.written (toString value.toNat) }

/-- Does what the instruction at `start` asks for, from its operands on. -/
def perform (start : Nat) : Operation → Exec Unit
  | .nop => return
  | .halt => modify fun m => { m with halted := true }
  | .load => do
      let target ← fetchRegister start
      let offset ← fetch
      setRegister target (← readData offset.toNat)
  | .store => do
      let source ← fetchRegister start
      let offset ← fetch
      writeData offset.toNat (← register source)
  | .compute f mode => do
      let target ← fetchRegister start
      let a ← fetchOperand start .register
      let b ← fetchOperand start mode
      setRegister target (f.apply a b)
  | .move mode => do
      let target ← fetchRegister start
      setRegister target (← fetchOperand start mode)
  | .complement mode => do
      let target ← fetchRegister start
      setRegister target (~~~(← fetchOperand start mode))
  | .compare mode => do
      let a ← fetchOperand start .register
      let b ← fetchOperand start mode
      modify fun m => { m with difference := a - b, borrow := a < b }
  | .branch c => do
      let m ← get
      if c.holds m.difference m.borrow then
        let address ← fetch
        modify fun m => { m with pc := address.toNat }
      else set { m with pc := m.pc + 1 }
  | .printRegister => do
      let source ← fetchRegister start
      print (← register source)
  | .printMemory => do
      let offset ← fetch
      print (← readData offset.toNat)
  | .inputRegister => do
      let target ← fetchRegister start
      setRegister target (← readInput)
  | .inputMemory => do
      let offset ← fetch
      writeData offset.toNat (← readInput)

/-- Executes the instruction at the pc. -/
def step : Exec Opcode := do
  let start := (← get).pc
  let byte ← fetch
  match Opcode.ofByte? byte with
  | none => fault (.invalidOpcode byte.toNat start)
  | some op =>
      perform start op.operation
      modify fun m => { m with steps := m.steps + 1 }
      return op

end Exec

end Asm256
