/-
Commands: instructions with their operands at hand.

An instruction takes its operands from the code byte by byte.  When these bytes
are there and name registers where they have to, they stand for a command
(`Operation.command?`), and the instruction is performed as the command is:
* `Machine.ahead` — the bytes of code from the pc on;
* `Machine.step_eq` — a step takes the bytes of an instruction off the code and performs its
  command;
* `Machine.step_end` — a step behind the last byte of code changes nothing.
-/
import Asm256.Machine.Run
import Mathlib

namespace Asm256

/-! ### Commands -/

/-- Where the last operand of an operation comes from. -/
inductive Source
  | register (r : Register)
  | literal (value : UInt8)
  deriving DecidableEq, Repr

/-- An instruction with its operands.  Branches go to a `target` of any type. -/
inductive Command (Target : Type)
  | nop
  | halt
  | load (target : Register) (offset : UInt8)
  | store (source : Register) (offset : UInt8)
  | compute (f : Arithmetic) (target left : Register) (right : Source)
  | move (target : Register) (source : Source)
  | complement (target : Register) (source : Source)
  | compare (left : Register) (right : Source)
  | branch (c : Condition) (target : Target)
  | printRegister (source : Register)
  | printMemory (offset : UInt8)
  | inputRegister (target : Register)
  | inputMemory (offset : UInt8)
  deriving DecidableEq, Repr

/-- The command with the target of a branch replaced. -/
def Command.map {α β : Type} (f : α → β) : Command α → Command β
  | nop => nop
  | halt => halt
  | load target offset => load target offset
  | store source offset => store source offset
  | compute g target left right => compute g target left right
  | move target source => move target source
  | complement target source => complement target source
  | compare left right => compare left right
  | branch c target => branch c (f target)
  | printRegister source => printRegister source
  | printMemory offset => printMemory offset
  | inputRegister target => inputRegister target
  | inputMemory offset => inputMemory offset

theorem Command.map_eq_branch {α β : Type} {f : α → β} {c : Command α} {cond : Condition} {t : β}
    (h : c.map f = .branch cond t) : ∃ u, c = .branch cond u ∧ f u = t := by
  cases c with
  | branch cond' u =>
    cases h
    exact ⟨u, rfl, rfl⟩
  | _ => cases h

/-- The register that a byte is the number of. -/
def register? (byte : UInt8) : Option Register :=
  if h : byte.toNat < registerCount then some ⟨byte.toNat, h⟩ else none

/-- The operand that a byte stands for. -/
def Source.ofByte? : Addressing → UInt8 → Option Source
  | .register, byte => (register? byte).map .register
  | .literal, byte => some (.literal byte)

/-- The command of an operation with these bytes for operands. -/
def Operation.command? : Operation → List UInt8 → Option (Command UInt8)
  | .nop, [] => some .nop
  | .halt, [] => some .halt
  | .load, [t, o] => do return .load (← register? t) o
  | .store, [s, o] => do return .store (← register? s) o
  | .compute f mode, [t, a, b] => do
      return .compute f (← register? t) (← register? a) (← Source.ofByte? mode b)
  | .move mode, [t, b] => do return .move (← register? t) (← Source.ofByte? mode b)
  | .complement mode, [t, b] => do return .complement (← register? t) (← Source.ofByte? mode b)
  | .compare mode, [a, b] => do return .compare (← register? a) (← Source.ofByte? mode b)
  | .branch c, [address] => some (.branch c address)
  | .printRegister, [s] => do return .printRegister (← register? s)
  | .printMemory, [o] => some (.printMemory o)
  | .inputRegister, [t] => do return .inputRegister (← register? t)
  | .inputMemory, [o] => some (.inputMemory o)
  | _, _ => none

/-- The value of an operand. -/
def Source.value : Source → Exec UInt8
  | register r => Exec.register r
  | literal value => return value

/-- Performs a command.  The pc is behind the instruction, where it stays without a branch. -/
def Command.perform : Command UInt8 → Exec Unit
  | nop => return
  | halt => modify fun m => { m with halted := true }
  | load target offset => do Exec.setRegister target (← Exec.readData offset.toNat)
  | store source offset => do Exec.writeData offset.toNat (← Exec.register source)
  | compute f target left right => do
      let a ← Exec.register left
      let b ← right.value
      Exec.setRegister target (f.apply a b)
  | move target source => do Exec.setRegister target (← source.value)
  | complement target source => do Exec.setRegister target (~~~(← source.value))
  | compare left right => do
      let a ← Exec.register left
      let b ← right.value
      modify fun m => { m with difference := a - b, borrow := a < b }
  | branch c target => modify fun m =>
      if c.holds m.difference m.borrow then { m with pc := target.toNat } else m
  | printRegister source => do Exec.print (← Exec.register source)
  | printMemory offset => do Exec.print (← Exec.readData offset.toNat)
  | inputRegister target => do Exec.setRegister target (← Exec.readInput)
  | inputMemory offset => do Exec.writeData offset.toNat (← Exec.readInput)

/-! ### The bytes of code from the pc on -/

namespace Machine

variable {m : Machine} {b : UInt8} {bs : List UInt8}

/-- The bytes of the code. -/
def code (m : Machine) : List UInt8 := m.memory.toList.take m.codeSize

/-- The bytes of code from the pc on. -/
def ahead (m : Machine) : List UInt8 := m.code.drop m.pc

/-- The machine with the pc moved behind `k` more bytes. -/
def advance (m : Machine) (k : Nat) : Machine := { m with pc := m.pc + k }

@[simp] theorem length_code (m : Machine) : m.code.length = m.codeSize := by
  have h := m.codeSize_le
  simp [code, h]

@[simp] theorem advance_advance (m : Machine) (j k : Nat) :
    (m.advance j).advance k = m.advance (j + k) := by
  simp [advance, Nat.add_assoc]

@[simp] theorem registers_advance (m : Machine) (k : Nat) :
    (m.advance k).registers = m.registers := rfl

@[simp] theorem difference_advance (m : Machine) (k : Nat) :
    (m.advance k).difference = m.difference := rfl

@[simp] theorem borrow_advance (m : Machine) (k : Nat) : (m.advance k).borrow = m.borrow := rfl

theorem ahead_advance (m : Machine) (k : Nat) : (m.advance k).ahead = m.ahead.drop k := by
  show m.code.drop (m.pc + k) = (m.code.drop m.pc).drop k
  rw [List.drop_drop]

theorem ahead_advance_of_cons (h : m.ahead = b :: bs) : (m.advance 1).ahead = bs := by
  rw [ahead_advance, h, List.drop_one, List.tail_cons]

theorem pc_lt_of_ahead (h : m.ahead = b :: bs) : m.pc < m.codeSize := by
  have hlen := congrArg List.length h
  -- the bytes ahead are as many as the pc leaves of the code
  rw [ahead, List.length_drop, length_code, List.length_cons] at hlen
  omega

theorem codeSize_le_of_ahead (h : m.ahead = []) : m.codeSize ≤ m.pc := by
  rwa [ahead, List.drop_eq_nil_iff, length_code] at h

theorem getElem_of_ahead (h : m.ahead = b :: bs) (hlt : m.pc < memorySize) :
    m.memory[m.pc] = b := by
  have hpc := pc_lt_of_ahead h
  have hb : m.code[m.pc]? = some b := by
    rw [← List.head?_drop]
    show m.ahead.head? = some b
    rw [h, List.head?_cons]
  rw [code, List.getElem?_take_of_lt hpc] at hb
  simpa [hlt] using hb

end Machine

/-! ### Taking bytes off the code -/

namespace Exec

open Machine (ahead_advance_of_cons pc_lt_of_ahead codeSize_le_of_ahead getElem_of_ahead)

variable {α β : Type} {m : Machine} {b : UInt8} {bs : List UInt8} {start : Nat} {r : Register}
  {mode : Addressing} {source : Source}

@[simp] theorem run_throw (t : Trap) : (throw t : Exec α).run m = .error t m := rfl

theorem run_fetch (h : m.ahead = b :: bs) : fetch.run m = .ok b (m.advance 1) := by
  have hpc := pc_lt_of_ahead h
  have hb := getElem_of_ahead h (Nat.lt_of_lt_of_le hpc m.codeSize_le)
  simp [fetch, hpc, hb, Machine.advance]

theorem run_fetch_end (h : m.ahead = []) :
    fetch.run m = .error (.fault (.readPastMemory m.pc)) m := by
  have hpc := Nat.not_lt.2 (codeSize_le_of_ahead h)
  simp [fetch, hpc, fault]

theorem run_fetchRegister (h : m.ahead = b :: bs) (hr : register? b = some r) :
    (fetchRegister start).run m = .ok r (m.advance 1) := by
  unfold register? at hr
  split at hr
  · next hlt =>
    cases hr
    simp [fetchRegister, run_fetch h, hlt]
  · cases hr

@[simp] theorem run_register (r : Register) : (register r).run m = .ok (m.registers.get r) m := rfl

/-- An operand is the value of what its byte stands for. -/
theorem run_fetchOperand (h : m.ahead = b :: bs) (hs : Source.ofByte? mode b = some source) :
    (fetchOperand start mode).run m = source.value.run (m.advance 1) := by
  cases mode with
  | register =>
    obtain ⟨r, hr, rfl⟩ := Option.map_eq_some_iff.1 hs
    simp [fetchOperand, run_fetchRegister h hr, Source.value]
  | literal =>
    cases hs
    simp [fetchOperand, run_fetch h, Source.value]

/-- The operand of a register is its contents. -/
theorem run_fetchOperand_register (h : m.ahead = b :: bs) (hr : register? b = some r) :
    (fetchOperand start .register).run m = .ok (m.registers.get r) (m.advance 1) := by
  simp [fetchOperand, run_fetchRegister h hr]

/-- An operation on complete operands is performed as its command is. -/
theorem run_perform {op : Operation} {args rest : List UInt8} {c : Command UInt8}
    (hc : op.command? args = some c) (h : m.ahead = args ++ rest) :
    (perform start op).run m = c.perform.run (m.advance args.length) := by
  revert hc
  -- one case for each row of `Operation.command?`, whose bytes are taken off one after the other
  fun_cases Operation.command? op args <;> intro hc
  · cases hc
    rfl
  · cases hc
    rfl
  · next t o =>
    obtain ⟨r, hr, hc⟩ := Option.bind_eq_some_iff.1 hc
    cases hc
    have h₁ := ahead_advance_of_cons h
    simp [perform, Command.perform, run_fetchRegister h hr, run_fetch h₁]
  · next s o =>
    obtain ⟨r, hr, hc⟩ := Option.bind_eq_some_iff.1 hc
    cases hc
    have h₁ := ahead_advance_of_cons h
    simp [perform, Command.perform, run_fetchRegister h hr, run_fetch h₁]
  · next f mode t a b =>
    obtain ⟨r, hr, hc⟩ := Option.bind_eq_some_iff.1 hc
    obtain ⟨left, hleft, hc⟩ := Option.bind_eq_some_iff.1 hc
    obtain ⟨right, hright, hc⟩ := Option.bind_eq_some_iff.1 hc
    cases hc
    have h₁ := ahead_advance_of_cons h
    have h₂ := ahead_advance_of_cons h₁
    rw [Machine.advance_advance] at h₂
    simp [perform, Command.perform, run_fetchRegister h hr, run_fetchOperand_register h₁ hleft,
      run_fetchOperand h₂ hright]
  · next mode t b =>
    obtain ⟨r, hr, hc⟩ := Option.bind_eq_some_iff.1 hc
    obtain ⟨source, hs, hc⟩ := Option.bind_eq_some_iff.1 hc
    cases hc
    have h₁ := ahead_advance_of_cons h
    simp [perform, Command.perform, run_fetchRegister h hr, run_fetchOperand h₁ hs]
  · next mode t b =>
    obtain ⟨r, hr, hc⟩ := Option.bind_eq_some_iff.1 hc
    obtain ⟨source, hs, hc⟩ := Option.bind_eq_some_iff.1 hc
    cases hc
    have h₁ := ahead_advance_of_cons h
    simp [perform, Command.perform, run_fetchRegister h hr, run_fetchOperand h₁ hs]
  · next mode a b =>
    obtain ⟨left, hleft, hc⟩ := Option.bind_eq_some_iff.1 hc
    obtain ⟨right, hright, hc⟩ := Option.bind_eq_some_iff.1 hc
    cases hc
    have h₁ := ahead_advance_of_cons h
    simp [perform, Command.perform, run_fetchOperand_register h hleft, run_fetchOperand h₁ hright]
  · next c address =>
    cases hc
    -- a branch that is not taken skips the address without a look at it
    by_cases hcond : c.holds m.difference m.borrow = true
    · simp [perform, Command.perform, hcond, run_fetch h]
    · simp [perform, Command.perform, hcond]
      rfl
  · next s =>
    obtain ⟨r, hr, hc⟩ := Option.bind_eq_some_iff.1 hc
    cases hc
    simp [perform, Command.perform, run_fetchRegister h hr]
  · next o =>
    cases hc
    simp [perform, Command.perform, run_fetch h]
  · next t =>
    obtain ⟨r, hr, hc⟩ := Option.bind_eq_some_iff.1 hc
    cases hc
    simp [perform, Command.perform, run_fetchRegister h hr]
  · next o =>
    cases hc
    simp [perform, Command.perform, run_fetch h]
  · cases hc

end Exec

/-! ### Steps -/

namespace Machine

variable {m : Machine} {b : UInt8} {bs : List UInt8} {op : Opcode} {args rest : List UInt8}
  {c : Command UInt8}

/-- Performs a command and counts it as a step of its opcode. -/
def perform (m : Machine) (op : Opcode) (c : Command UInt8) : EStateM.Result Trap Machine Opcode :=
  match c.perform.run m with
  | .ok _ m => .ok op { m with steps := m.steps + 1 }
  | .error t m => .error t m

/-- A byte that is an opcode is executed: the step counts if its operation succeeds. -/
theorem step_of_opcode (h : m.ahead = b :: bs) (hop : Opcode.ofByte? b = some op) :
    m.step = match (Exec.perform m.pc op.operation).run (m.advance 1) with
      | .ok _ m' => .ok op { m' with steps := m'.steps + 1 }
      | .error t m' => .error t m' := by
  show Exec.step.run m = _
  simp only [Exec.step, EStateM.run_bind, EStateM.run_get, Exec.run_fetch h, hop]
  cases (Exec.perform m.pc op.operation).run (m.advance 1) <;> rfl

/-- A byte that is no opcode is taken off the code, but not executed. -/
theorem step_of_no_opcode (h : m.ahead = b :: bs) (hop : Opcode.ofByte? b = none) :
    m.step = .error (.fault (.invalidOpcode b.toNat m.pc)) (m.advance 1) := by
  show Exec.step.run m = _
  simp only [Exec.step, EStateM.run_bind, EStateM.run_get, Exec.run_fetch h, hop]
  rfl

/-- **A step takes an instruction off the code and performs its command.** -/
theorem step_eq (h : m.ahead = op.toByte :: (args ++ rest))
    (hc : op.operation.command? args = some c) :
    m.step = (m.advance (1 + args.length)).perform op c := by
  have h₁ := ahead_advance_of_cons h
  have hp : (Exec.perform m.pc op.operation).run (m.advance 1) = _ := Exec.run_perform hc h₁
  rw [step_of_opcode h (Opcode.ofByte?_toByte op), ← advance_advance, perform, ← hp]

/-- A step behind the last byte of code changes nothing. -/
theorem step_end (h : m.ahead = []) : m.step = .error (.fault (.readPastMemory m.pc)) m := by
  show Exec.step.run m = _
  simp [Exec.step, Exec.run_fetch_end h]

end Machine

/-! ### Many steps -/

/-- Executes `n` instructions, also when halted. -/
def Exec.iterate : (n : Nat) → Exec Unit
  | 0 => return
  | n + 1 => do
      let _ ← step
      iterate n

namespace Machine

/-- Executes `n` instructions, also when halted. -/
def iterate (n : Nat) (m : Machine) : EStateM.Result Trap Machine Unit := (Exec.iterate n).run m

theorem iterate_zero (m : Machine) : m.iterate 0 = .ok () m := rfl

theorem iterate_succ (n : Nat) (m : Machine) : m.iterate (n + 1) =
    match m.step with
    | .ok _ m' => m'.iterate n
    | .error t m' => .error t m' := by
  rw [iterate, Exec.iterate, EStateM.run_bind, step]
  cases Exec.step.run m <;> rfl

end Machine

end Asm256
