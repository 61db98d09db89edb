/-
Machines with their code in another place.

Two machines with the same instructions, one of them behind `k` bytes of code
more, are in lockstep (`Machine.Relocated`): the pc of the second is larger by
`k`, and so are its branch targets, while registers, flags, input and output are
the same, and so is the data at each offset.  But the data of the second ends
`k` bytes earlier, and it fails there:
* `Lockstep` — how the results of two such machines are related;
* `Exec.InLockstep` — actions that go on in lockstep;
* `Command.inLockstep_perform` — a command does, when its branch targets differ by `k`.
-/
import Asm256.Proofs.Machine.Data

namespace Asm256

/-- The machines differ in where their code is: the first has `codeSize` bytes of it, and the second
has `k` bytes more and its pc behind them. -/
structure Machine.Relocated (codeSize k : Nat) (m m' : Machine) : Prop where
  codeSize_eq : m.codeSize = codeSize
  codeSize_eq' : m'.codeSize = codeSize + k
  pc_eq : m'.pc = m.pc + k
  registers_eq : m'.registers = m.registers
  difference_eq : m'.difference = m.difference
  borrow_eq : m'.borrow = m.borrow
  halted_eq : m'.halted = m.halted
  steps_eq : m'.steps = m.steps + k
  input_eq : m'.input = m.input
  output_eq : m'.output = m.output
  data_eq : ∀ offset : UInt8, codeSize + k + offset.toNat < memorySize →
    m'.data? offset = m.data? offset

/-- The failure of a machine with its code `k` bytes further on. -/
def Trap.relocate (k : Nat) : Trap → Trap
  | .fault (.readPastMemory pc) => .fault (.readPastMemory (pc + k))
  | t => t

/-- The results of two machines in lockstep: both succeed or both fail, in the same way, unless the
second fails for an offset behind its data. -/
inductive Lockstep (codeSize k : Nat) {α : Type} :
    EStateM.Result Trap Machine α → EStateM.Result Trap Machine α → Prop
  | ok {v : α} {m m' : Machine} (h : m.Relocated codeSize k m') :
      Lockstep codeSize k (.ok v m) (.ok v m')
  | error {t : Trap} {m m' : Machine} (h : m.Relocated codeSize k m') :
      Lockstep codeSize k (.error t m) (.error (t.relocate k) m')
  | outside {r : EStateM.Result Trap Machine α} {f : Fault} {offset : Nat} {m' : Machine}
      (hf : f = .outOfBoundsRead offset ∨ f = .outOfBoundsWrite offset)
      (hle : memorySize ≤ codeSize + k + offset) : Lockstep codeSize k r (.error (.fault f) m')

namespace Exec

open Machine (Relocated)

variable {codeSize k : Nat} {α β : Type} {x y : Exec α} {f g : α → Exec β}

/-- On machines in lockstep, the actions come to results in lockstep. -/
def InLockstep (codeSize k : Nat) (x y : Exec α) : Prop :=
  ∀ m m', m.Relocated codeSize k m' → Lockstep codeSize k (x.run m) (y.run m')

theorem InLockstep.bind (hx : InLockstep codeSize k x y)
    (hf : ∀ v, InLockstep codeSize k (f v) (g v)) : InLockstep codeSize k (x >>= f) (y >>= g) := by
  intro m m' h
  rw [EStateM.run_bind, EStateM.run_bind]
  have hr := hx m m' h
  generalize x.run m = r at hr
  generalize y.run m' = r' at hr
  cases hr with
  | @ok v m₁ m₁' h₁ => exact hf v m₁ m₁' h₁
  | error h₁ => exact .error h₁
  | outside hfault hle => exact .outside hfault hle

theorem inLockstep_pure (v : α) : InLockstep codeSize k (pure v) (pure v) :=
  fun _ _ h => .ok h

theorem inLockstep_modify {u v : Machine → Machine}
    (h : ∀ m m' : Machine, m.Relocated codeSize k m' → (u m).Relocated codeSize k (v m')) :
    InLockstep codeSize k (modify u) (modify v) :=
  fun m m' hm => .ok (h m m' hm)

theorem inLockstep_register (r : Register) :
    InLockstep codeSize k (register r) (register r) := by
  intro m m' h
  rw [run_register, run_register, h.registers_eq]
  exact .ok h

theorem inLockstep_value (source : Source) :
    InLockstep codeSize k source.value source.value := by
  cases source with
  | register r => exact inLockstep_register r
  | literal v => exact inLockstep_pure v

theorem inLockstep_setRegister (r : Register) (v : UInt8) :
    InLockstep codeSize k (setRegister r v) (setRegister r v) :=
  inLockstep_modify fun m m' h => { h with registers_eq := by rw [h.registers_eq] }

theorem inLockstep_print (v : UInt8) : InLockstep codeSize k (print v) (print v) :=
  inLockstep_modify fun m m' h => { h with output_eq := by rw [h.output_eq] }

theorem inLockstep_readInput : InLockstep codeSize k readInput readInput := by
  intro m m' h
  rw [run_readInput, run_readInput, h.input_eq]
  have hrest : Relocated codeSize k { m with input := (LineStream.readByte m.input).2 }
      { m' with input := (LineStream.readByte m.input).2 } := { h with input_eq := rfl }
  cases hr : (LineStream.readByte m.input).1 with
  | ok v => exact .ok hrest
  | error t =>
    obtain rfl | ⟨e, rfl⟩ := LineStream.readByte_error hr
    · exact .error hrest
    · exact .error hrest

/-- Data is read in lockstep, unless the second machine has none at the offset. -/
theorem inLockstep_readData (offset : UInt8) :
    InLockstep codeSize k (readData offset.toNat) (readData offset.toNat) := by
  intro m m' h
  rw [Machine.run_readData_data?, Machine.run_readData_data?]
  by_cases hlt : codeSize + k + offset.toNat < memorySize
  · have hdata : ∃ v, m'.data? offset = some v := by
      rw [Machine.data?, h.codeSize_eq']
      exact ⟨_, Vector.getElem?_eq_getElem hlt⟩
    obtain ⟨v, hv⟩ := hdata
    rw [hv, ← h.data_eq offset hlt, hv]
    exact .ok h
  · have hnone : m'.data? offset = none := by
      rw [Machine.data?, h.codeSize_eq']
      exact Vector.getElem?_eq_none (Nat.le_of_not_lt hlt)
    rw [hnone]
    exact .outside (.inl rfl) (Nat.le_of_not_lt hlt)

/-- Data is stored in lockstep, unless the second machine has none at the offset. -/
theorem inLockstep_writeData (offset v : UInt8) :
    InLockstep codeSize k (writeData offset.toNat v) (writeData offset.toNat v) := by
  intro m m' h
  have hrun := run_writeData_natCast m offset.toNat v
  have hrun' := run_writeData_natCast m' offset.toNat v
  by_cases hlt : codeSize + k + offset.toNat < memorySize
  · rw [dif_pos (by rw [h.codeSize_eq']; exact hlt)] at hrun'
    rw [dif_pos (by rw [h.codeSize_eq]; omega)] at hrun
    rw [hrun, hrun']
    refine .ok { h with data_eq := fun other hother => ?_ }
    -- both data are what was there, with the same byte stored over it
    have hstored := (stores_writeData m offset v).ok hrun
    have hstored' := (stores_writeData m' offset v).ok hrun'
    rw [hstored.data?_eq, hstored'.data?_eq, h.data_eq other hother]
  · rw [dif_neg (by rw [h.codeSize_eq']; exact hlt)] at hrun'
    rw [hrun']
    exact .outside (.inr rfl) (Nat.le_of_not_lt hlt)

end Exec

namespace Command

open Exec

variable {codeSize k : Nat} {Target : Type} {c : Command Target} {f g : Target → UInt8}

theorem inLockstep_branch (cond : Condition) {target target' : UInt8}
    (ht : target'.toNat = target.toNat + k) : InLockstep codeSize k
      (branch cond target).perform (branch cond target').perform := by
  intro m m' h
  have hsame : cond.holds m'.difference m'.borrow = cond.holds m.difference m.borrow := by
    rw [h.difference_eq, h.borrow_eq]
  rw [run_branch, run_branch, hsame]
  by_cases hcond : cond.holds m.difference m.borrow = true
  · rw [if_pos hcond, if_pos hcond]
    exact .ok { h with pc_eq := ht }
  · rw [if_neg hcond, if_neg hcond]
    exact .ok h

/-- **A command is performed in lockstep**, when its branch targets differ by `k`. -/
theorem inLockstep_perform
    (ht : ∀ cond target, c = .branch cond target → (g target).toNat = (f target).toNat + k) :
    InLockstep codeSize k (c.map f).perform (c.map g).perform := by
  cases c with
  | nop => exact inLockstep_pure _
  | halt => exact inLockstep_modify fun m m' h => { h with halted_eq := rfl }
  | load target offset =>
    exact (inLockstep_readData offset).bind fun v => inLockstep_setRegister target v
  | store source offset =>
    exact (inLockstep_register source).bind fun v => inLockstep_writeData offset v
  | compute op target left right =>
    exact (inLockstep_register left).bind fun a => (inLockstep_value right).bind fun b =>
      inLockstep_setRegister target (op.apply a b)
  | move target source =>
    exact (inLockstep_value source).bind fun v => inLockstep_setRegister target v
  | complement target source =>
    exact (inLockstep_value source).bind fun v => inLockstep_setRegister target (~~~v)
  | compare left right =>
    exact (inLockstep_register left).bind fun a => (inLockstep_value right).bind fun b =>
      inLockstep_modify fun m m' h => { h with difference_eq := rfl, borrow_eq := rfl }
  | branch cond target => exact inLockstep_branch cond (ht cond target rfl)
  | printRegister source =>
    exact (inLockstep_register source).bind fun v => inLockstep_print v
  | printMemory offset =>
    exact (inLockstep_readData offset).bind fun v => inLockstep_print v
  | inputRegister target =>
    exact inLockstep_readInput.bind fun v => inLockstep_setRegister target v
  | inputMemory offset =>
    exact inLockstep_readInput.bind fun v => inLockstep_writeData offset v

end Command

/-- A command counts as a step in lockstep. -/
theorem Lockstep.perform {codeSize k : Nat} {m m' : Machine} {c c' : Command UInt8} (op : Opcode)
    (h : Lockstep codeSize k (c.perform.run m) (c'.perform.run m')) :
    Lockstep codeSize k (m.perform op c) (m'.perform op c') := by
  unfold Machine.perform
  generalize c.perform.run m = r at h
  generalize c'.perform.run m' = r' at h
  cases h with
  | ok h =>
    refine .ok { h with steps_eq := ?_ }
    show _ + 1 = _ + 1 + k
    rw [h.steps_eq]
    omega
  | error h => exact .error h
  | outside hf hle => exact .outside hf hle

end Asm256
