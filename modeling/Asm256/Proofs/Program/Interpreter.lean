/-
The interpreter of statements.

It executes the statements of a program as they are written, without code: an
index says which statement comes next, a branch goes to the first statement
behind the definition of its label, and data are the bytes that the statements
leave of the memory, each under its own offset.
-/
import Asm256.Proofs.Program.Reading

namespace Asm256

/-- The statements of a program and its labels. -/
structure Program where
  statements : List Statement
  labels : LabelTable

/-- What an assembly was made of. -/
def Assembly.program (a : Assembly) : Program := ⟨a.statements, a.labels⟩

namespace Program

/-- The number of bytes that are not code. -/
def dataSize (p : Program) : Nat := memorySize - Statement.totalSize p.statements

/-- The number of statements in front of the definition of a label. -/
def index? (p : Program) (name : String) : Option Nat :=
  (p.labels.find? name).map fun l =>
    p.statements.countP fun s => decide (s.mnemonic.pos.Before l.pos)

/-- The state of the interpreter. -/
structure State where
  /-- The number of the next statement. -/
  index : Nat := 0
  registers : Registers := .replicate registerCount 0
  /-- The difference modulo 256 of the last comparison. -/
  difference : UInt8 := 0
  /-- The second operand of the last comparison was the greater one. -/
  borrow : Bool := false
  halted : Bool := false
  /-- The byte at each offset. -/
  data : Nat → UInt8 := fun _ => 0
  input : List Char := []
  output : String := ""

/-- Why the interpreter cannot execute a statement. -/
inductive Stop
  | pastEnd
  | outOfBoundsRead (offset : UInt8)
  | outOfBoundsWrite (offset : UInt8)
  | inputExhausted
  | tooLong (e : Decimal.TooLong)
  /-- The statement is no instruction, or names a label without a definition. -/
  | stuck
  deriving DecidableEq, Repr

/-- Actions of the interpreter. -/
abbrev Exec := EStateM Stop State

namespace Exec

variable (p : Program)

/-- The contents of a register. -/
def register (r : Register) : Exec UInt8 := do
  return (← get).registers.get r

/-- The value of an operand. -/
def value : Source → Exec UInt8
  | .register r => register r
  | .literal v => return v

/-- Stores a byte in a register. -/
def setRegister (r : Register) (v : UInt8) : Exec Unit :=
  modify fun s => { s with registers := s.registers.set r v r.isLt }

/-- The data byte at an offset. -/
def readData (offset : UInt8) : Exec UInt8 := do
  if offset.toNat < p.dataSize then return (← get).data offset.toNat
  else throw (.outOfBoundsRead offset)

/-- Stores a data byte at an offset. -/
def writeData (offset v : UInt8) : Exec Unit := do
  if offset.toNat < p.dataSize then
    modify fun s => { s with data := fun o => if o = offset.toNat then v else s.data o }
  else throw (.outOfBoundsWrite offset)

/-- Reads the next number of the input. -/
def readInput : Exec UInt8 := do
  let s ← get
  let (result, rest) := LineStream.readByte s.input
  set { s with input := rest }
  match result with
  | .ok v => return v
  | .error (.tooLong e) => throw (.tooLong e)
  | .error (.fault _) => throw .inputExhausted

/-- Writes a byte as a line of the output. -/
def print (v : UInt8) : Exec Unit :=
  modify fun s => { s with output := s.output ++ LineStream.written (toString v.toNat) }

/-- Goes to the first statement behind the definition of a label. -/
def jump (name : String) : Exec Unit :=
  match p.index? name with
  | some i => modify fun s => { s with index := i }
  | none => throw .stuck

/-- Performs a command. -/
def perform : Command String → Exec Unit
  | .nop => return
  | .halt => modify fun s => { s with halted := true }
  | .load target offset => do setRegister target (← readData p offset)
  | .store source offset => do writeData p offset (← register source)
  | .compute f target left right => do
      let a ← register left
      let b ← value right
      setRegister target (f.apply a b)
  | .move target source => do setRegister target (← value source)
  | .complement target source => do setRegister target (~~~(← value source))
  | .compare left right => do
      let a ← register left
      let b ← value right
      modify fun s => { s with difference := a - b, borrow := a < b }
  | .branch c name => do
      let s ← get
      if c.holds s.difference s.borrow then jump p name else return
  | .printRegister source => do print (← register source)
  | .printMemory offset => do print (← readData p offset)
  | .inputRegister target => do setRegister target (← readInput)
  | .inputMemory offset => do writeData p offset (← readInput)

/-- Executes the next statement, and answers which one it is. -/
def step : Exec Statement := do
  let s ← get
  match p.statements[s.index]? with
  | none => throw .pastEnd
  | some statement =>
      match statement.command? with
      | none => throw .stuck
      | some c =>
          set { s with index := s.index + 1 }
          perform p c
          return statement

/-- Executes `n` statements, also when halted. -/
def iterate : (n : Nat) → Exec Unit
  | 0 => return
  | n + 1 => do
      let _ ← step p
      iterate n

end Exec

/-- What has become of a run. -/
inductive Ending
  | halted
  | stopped (s : Stop)
  | running
  deriving DecidableEq, Repr

/-- Executes the next statement. -/
def step (p : Program) (s : State) : EStateM.Result Stop State Statement := (Exec.step p).run s

/-- Executes `n` statements, also when halted. -/
def iterate (p : Program) (n : Nat) (s : State) : EStateM.Result Stop State Unit :=
  (Exec.iterate p n).run s

/-- Executes at most `limit` statements, and none when halted. -/
def run (p : Program) : (limit : Nat) → State → Ending × State
  | 0, s => (if s.halted then .halted else .running, s)
  | limit + 1, s =>
      if s.halted then (.halted, s)
      else match p.step s with
        | .ok _ s => p.run limit s
        | .error stop s => (.stopped stop, s)

end Program

end Asm256
