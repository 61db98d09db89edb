/-
What commands leave alone.

The code of a machine lies in its memory, where a program can store bytes too.
But it stores them behind the code, and only a branch moves the pc:
* `Exec.Preserves` — an action keeps an invariant, and fails only in some ways;
* `Exec.Readonly`, `Exec.Stable` — an invariant that registers, flags and input cannot break, and one
  that data cannot break either: every command but a branch preserves it
  (`Command.preserves_perform`);
* `Command.perform_ok` — a command that succeeds leaves the code as it is, and the pc too unless
  it is a branch;
* `Command.perform_error` — a command that fails leaves both, and fails on its data, not on the
  code.
-/
import Asm256.Proofs.Machine.Command
import Asm256.Proofs.Machine.Input

namespace Asm256

/-! ### Invariants of actions -/

namespace Exec

variable {α β : Type} {I : Machine → Prop} {T : Trap → Prop} {x : Exec α} {f : α → Exec β}

/-- The action keeps the invariant `I`, and its failures are all in `T`. -/
structure Preserves (I : Machine → Prop) (T : Trap → Prop) (x : Exec α) : Prop where
  ok {m m' v} : I m → x.run m = .ok v m' → I m'
  error {m m' t} : I m → x.run m = .error t m' → I m' ∧ T t

theorem Preserves.bind (hx : Preserves I T x) (hf : ∀ v, Preserves I T (f v)) :
    Preserves I T (x >>= f) := by
  constructor
  · intro m m' v hm h
    rw [EStateM.run_bind] at h
    cases hr : x.run m with
    | error t m₁ =>
      rw [hr] at h
      cases h
    | ok u m₁ =>
      rw [hr] at h
      exact (hf u).ok (hx.ok hm hr) h
  · intro m m' t hm h
    rw [EStateM.run_bind] at h
    cases hr : x.run m with
    | error t m₁ =>
      rw [hr] at h
      cases h
      exact hx.error hm hr
    | ok u m₁ =>
      rw [hr] at h
      exact (hf u).error (hx.ok hm hr) h

/-- An action that never fails. -/
theorem preserves_of_run (u : Machine → α) (g : Machine → Machine)
    (hx : ∀ m, x.run m = .ok (u m) (g m)) (hg : ∀ m : Machine, I m → I (g m)) :
    Preserves I T x := by
  constructor
  · intro m m' v hm h
    rw [hx] at h
    cases h
    exact hg m hm
  · intro m m' t hm h
    rw [hx] at h
    cases h

theorem preserves_pure (v : α) : Preserves I T (pure v) :=
  preserves_of_run (fun _ => v) id (fun _ => rfl) fun _ => id

theorem preserves_modify {g : Machine → Machine} (h : ∀ m : Machine, I m → I (g m)) :
    Preserves I T (modify g) :=
  preserves_of_run (fun _ => ()) g (fun _ => rfl) h

theorem preserves_fault {e : Fault} (h : T (.fault e)) : Preserves I T (fault e : Exec α) := by
  constructor
  · intro m m' v hm h
    cases h
  · intro m m' t hm h'
    cases h'
    exact ⟨hm, h⟩

theorem preserves_register (r : Register) : Preserves I T (register r) :=
  preserves_of_run (fun m => m.registers.get r) id (fun _ => rfl) fun _ => id

theorem preserves_value (source : Source) : Preserves I T source.value := by
  cases source with
  | register r => exact preserves_register r
  | literal v => exact preserves_pure v

theorem run_readData (m : Machine) (offset : Int) : (readData offset).run m =
    match m.dataAddress? offset with
    | some address => .ok (m.memory.get address) m
    | none => .error (.fault (.outOfBoundsRead offset)) m := by
  simp only [readData, EStateM.run_bind, EStateM.run_get]
  cases m.dataAddress? offset <;> rfl

theorem run_writeData (m : Machine) (offset : Int) (v : UInt8) : (writeData offset v).run m =
    match m.dataAddress? offset with
    | some address => .ok () { m with memory := m.memory.set address v address.isLt }
    | none => .error (.fault (.outOfBoundsWrite offset)) m := by
  simp only [writeData, EStateM.run_bind, EStateM.run_get]
  cases m.dataAddress? offset <;> rfl

theorem run_readInput (m : Machine) : readInput.run m =
    match (LineStream.readByte m.input).1 with
    | .ok v => .ok v { m with input := (LineStream.readByte m.input).2 }
    | .error t => .error t { m with input := (LineStream.readByte m.input).2 } := by
  simp only [readInput, EStateM.run_bind, EStateM.run_get, EStateM.run_set]
  cases (LineStream.readByte m.input).1 <;> rfl

theorem dataAddress?_natCast (m : Machine) (offset : Nat) : m.dataAddress? offset =
    if h : m.codeSize + offset < memorySize then some ⟨m.codeSize + offset, h⟩ else none := by
  unfold Machine.dataAddress?
  by_cases h : m.codeSize + offset < memorySize
  · rw [dif_pos h, dif_pos (by omega)]
    rfl
  · rw [dif_neg h, dif_neg (by omega)]

/-- Data lies behind the code. -/
theorem codeSize_le_dataAddress {m : Machine} {offset : Nat} {address : Fin memorySize}
    (h : m.dataAddress? offset = some address) : m.codeSize ≤ address := by
  rw [dataAddress?_natCast] at h
  split at h
  · cases h
    exact Nat.le_add_right _ _
  · cases h

theorem run_readData_natCast (m : Machine) (offset : Nat) : (readData offset).run m =
    if h : m.codeSize + offset < memorySize then .ok m.memory[m.codeSize + offset] m
    else .error (.fault (.outOfBoundsRead offset)) m := by
  rw [run_readData, dataAddress?_natCast]
  by_cases h : m.codeSize + offset < memorySize
  · rw [dif_pos h, dif_pos h]
    rfl
  · rw [dif_neg h, dif_neg h]

theorem run_writeData_natCast (m : Machine) (offset : Nat) (v : UInt8) :
    (writeData offset v).run m =
      if h : m.codeSize + offset < memorySize then
        .ok () { m with memory := m.memory.set (m.codeSize + offset) v h }
      else .error (.fault (.outOfBoundsWrite offset)) m := by
  rw [run_writeData, dataAddress?_natCast]
  by_cases h : m.codeSize + offset < memorySize
  · rw [dif_pos h, dif_pos h]
  · rw [dif_neg h, dif_neg h]

/-- Registers, flags, output and input cannot break the invariant, and failures to read data and
input are in `T`. -/
structure Readonly (I : Machine → Prop) (T : Trap → Prop) : Prop where
  registers {m} (rs : Registers) : I m → I { m with registers := rs }
  flags {m} (d : UInt8) (b : Bool) : I m → I { m with difference := d, borrow := b }
  halted {m} : I m → I { m with halted := true }
  output {m} (text : String) : I m → I { m with output := text }
  input {m} : I m → I { m with input := (LineStream.readByte m.input).2 }
  outOfBoundsRead {m} (offset : Nat) : I m → m.dataAddress? offset = none →
    T (.fault (.outOfBoundsRead offset))
  unreadable {m t} : I m → (LineStream.readByte m.input).1 = .error t → T t

/-- Data cannot break the invariant either, and failures to store it are in `T` too. -/
structure Stable (I : Machine → Prop) (T : Trap → Prop) : Prop extends Readonly I T where
  data {m} (address : Fin memorySize) (v : UInt8) : m.codeSize ≤ address.val → I m →
    I { m with memory := m.memory.set address v address.isLt }
  outOfBoundsWrite {m} (offset : Nat) : I m → m.dataAddress? offset = none →
    T (.fault (.outOfBoundsWrite offset))

namespace Readonly

variable (hs : Readonly I T)

include hs

theorem setRegister (r : Register) (v : UInt8) : Preserves I T (setRegister r v) :=
  preserves_modify fun m hm => hs.registers (m.registers.set r v r.isLt) hm

theorem print (v : UInt8) : Preserves I T (print v) :=
  preserves_modify fun _ hm => hs.output _ hm

theorem readData (offset : Nat) : Preserves I T (readData offset) := by
  constructor
  · intro m m' v hm h
    rw [run_readData] at h
    cases ha : m.dataAddress? offset with
    | none => rw [ha] at h; cases h
    | some address => rw [ha] at h; cases h; exact hm
  · intro m m' t hm h
    rw [run_readData] at h
    cases ha : m.dataAddress? offset with
    | none => rw [ha] at h; cases h; exact ⟨hm, hs.outOfBoundsRead offset hm ha⟩
    | some address => rw [ha] at h; cases h

theorem readInput : Preserves I T readInput := by
  constructor
  · intro m m' v hm h
    rw [run_readInput] at h
    cases hr : (LineStream.readByte m.input).1 with
    | ok u => rw [hr] at h; cases h; exact hs.input hm
    | error t => rw [hr] at h; cases h
  · intro m m' t hm h
    rw [run_readInput] at h
    cases hr : (LineStream.readByte m.input).1 with
    | ok u => rw [hr] at h; cases h
    | error t => rw [hr] at h; cases h; exact ⟨hs.input hm, hs.unreadable hm hr⟩

end Readonly

theorem Stable.writeData (hs : Stable I T) (offset : Nat) (v : UInt8) :
    Preserves I T (writeData offset v) := by
  constructor
  · intro m m' u hm h
    rw [run_writeData] at h
    cases ha : m.dataAddress? offset with
    | none => rw [ha] at h; cases h
    | some address =>
      rw [ha] at h
      cases h
      exact hs.data address v (codeSize_le_dataAddress ha) hm
  · intro m m' t hm h
    rw [run_writeData] at h
    cases ha : m.dataAddress? offset with
    | none => rw [ha] at h; cases h; exact ⟨hm, hs.outOfBoundsWrite offset hm ha⟩
    | some address => rw [ha] at h; cases h

end Exec

/-! ### Invariants of commands -/

namespace Command

open Exec

variable {I : Machine → Prop} {T : Trap → Prop} {c : Command UInt8}

/-- A branch that is taken moves the pc, and otherwise nothing happens. -/
theorem run_branch (cond : Condition) (target : UInt8) (m : Machine) :
    (branch cond target).perform.run m = .ok ()
      (if cond.holds m.difference m.borrow then { m with pc := target.toNat } else m) := rfl

/-- **Every command preserves an invariant** that only a store or a branch could break, if its own
store or branch does. -/
theorem preserves_of_readonly (hs : Readonly I T)
    (hstore : ∀ source offset, c = .store source offset → ∀ v, Preserves I T (writeData offset.toNat v))
    (hinput : ∀ offset, c = .inputMemory offset → ∀ v, Preserves I T (writeData offset.toNat v))
    (hpc : ∀ cond target, c = .branch cond target →
      ∀ m : Machine, I m → I { m with pc := target.toNat }) : Preserves I T c.perform := by
  cases c with
  | nop => exact preserves_pure _
  | halt => exact preserves_modify fun _ => hs.halted
  | load target offset => exact (hs.readData _).bind fun _ => hs.setRegister _ _
  | store source offset => exact (preserves_register _).bind fun _ => hstore source offset rfl _
  | compute f target left right =>
    exact (preserves_register _).bind fun _ => (preserves_value _).bind fun _ =>
      hs.setRegister _ _
  | move target source => exact (preserves_value _).bind fun _ => hs.setRegister _ _
  | complement target source => exact (preserves_value _).bind fun _ => hs.setRegister _ _
  | compare left right =>
    exact (preserves_register _).bind fun a => (preserves_value _).bind fun b =>
      preserves_modify fun _ => hs.flags (a - b) (a < b)
  | branch cond target =>
    refine preserves_of_run (fun _ => ()) _ (run_branch cond target) fun m hm => ?_
    split
    · exact hpc cond target rfl m hm
    · exact hm
  | printRegister source => exact (preserves_register _).bind fun _ => hs.print _
  | printMemory offset => exact (hs.readData _).bind fun _ => hs.print _
  | inputRegister target => exact hs.readInput.bind fun _ => hs.setRegister _ _
  | inputMemory offset => exact hs.readInput.bind fun _ => hinput offset rfl _

/-- **Every command preserves a stable invariant**, a branch if its target does. -/
theorem preserves_perform (hs : Stable I T) (hpc : ∀ cond target, c = .branch cond target →
    ∀ m : Machine, I m → I { m with pc := target.toNat }) : Preserves I T c.perform :=
  preserves_of_readonly hs.toReadonly (fun _ _ _ _ => hs.writeData _ _)
    (fun _ _ _ => hs.writeData _ _) hpc

end Command

/-! ### The code and the pc -/

/-- The failure is one of reading the code: a byte is missing, or names no opcode or register. -/
def Trap.OfCode : Trap → Prop
  | .fault (.readPastMemory _) | .fault (.invalidOpcode _ _) | .fault (.invalidRegister _ _) => True
  | _ => False

namespace Machine

/-- The machines have the same code and stand at the same byte of it. -/
structure SamePlace (m m' : Machine) : Prop where
  codeSize_eq : m'.codeSize = m.codeSize
  code_eq : m'.code = m.code
  pc_eq : m'.pc = m.pc

theorem SamePlace.refl (m : Machine) : m.SamePlace m := ⟨rfl, rfl, rfl⟩

/-- Only a branch can move a machine to another place, and no failure on data is one of the code. -/
theorem stable_samePlace (m : Machine) : Exec.Stable m.SamePlace fun t => ¬ t.OfCode where
  registers _ h := ⟨h.1, h.2, h.3⟩
  flags _ _ h := ⟨h.1, h.2, h.3⟩
  halted h := ⟨h.1, h.2, h.3⟩
  output _ h := ⟨h.1, h.2, h.3⟩
  data {m'} address v hle h := by
    refine ⟨h.1, ?_, h.3⟩
    rw [← h.2]
    show (m'.memory.set address v address.isLt).toList.take m'.codeSize = m'.memory.toList.take m'.codeSize
    rw [Vector.toList_set, List.take_set_of_le hle]
  input h := ⟨h.1, h.2, h.3⟩
  outOfBoundsRead _ _ _ := id
  outOfBoundsWrite _ _ _ := id
  unreadable _ hr := by
    obtain rfl | ⟨e, rfl⟩ := LineStream.readByte_error hr <;> exact id

end Machine

namespace Command

variable {c : Command UInt8} {m m' : Machine} {t : Trap}

open Machine (SamePlace)

/-- **A command that succeeds leaves the code as it is**, and the pc too unless it is a branch. -/
theorem perform_ok (h : c.perform.run m = .ok () m') :
    m'.codeSize = m.codeSize ∧ m'.code = m.code ∧
      (m'.pc = m.pc ∨ ∃ cond target, c = .branch cond target ∧ m'.pc = target.toNat) := by
  -- a branch does not keep the place, so it is looked at by itself
  by_cases hb : ∃ cond target, c = .branch cond target
  · obtain ⟨cond, target, rfl⟩ := hb
    rw [run_branch] at h
    split at h
    · cases h
      exact ⟨rfl, rfl, .inr ⟨cond, target, rfl, rfl⟩⟩
    · cases h
      exact ⟨rfl, rfl, .inl rfl⟩
  · have hs := (preserves_perform m.stable_samePlace fun cond target heq =>
      absurd ⟨cond, target, heq⟩ hb).ok (SamePlace.refl m) h
    exact ⟨hs.codeSize_eq, hs.code_eq, .inl hs.pc_eq⟩

/-- A command that fails leaves the code and the pc alone, and fails on its data. -/
theorem perform_error (h : c.perform.run m = .error t m') : m.SamePlace m' ∧ ¬ t.OfCode := by
  by_cases hb : ∃ cond target, c = .branch cond target
  · obtain ⟨cond, target, rfl⟩ := hb
    rw [run_branch] at h
    cases h
  · exact (preserves_perform m.stable_samePlace fun cond target heq =>
      absurd ⟨cond, target, heq⟩ hb).error (SamePlace.refl m) h

end Command

/-- Short lines stay short, and no numeral on them is too long. -/
theorem Machine.stable_short :
    Exec.Stable (fun m => LineStream.Short m.input) fun t => ∀ e, t ≠ .tooLong e where
  registers _ h := h
  flags _ _ h := h
  halted h := h
  output _ h := h
  data _ _ _ h := h
  input h := h.of_suffix (LineStream.readByte_suffix _)
  outOfBoundsRead _ _ _ _ := by simp
  outOfBoundsWrite _ _ _ _ := by simp
  unreadable h hr e := by
    rintro rfl
    exact h.readByte e hr

namespace Machine

variable {c : Command UInt8} {m m' : Machine} {t : Trap} {op op' : Opcode}

theorem run_of_perform_ok (h : m.perform op c = .ok op' m') :
    op' = op ∧ ∃ m₁, c.perform.run m = .ok () m₁ ∧ m' = { m₁ with steps := m₁.steps + 1 } := by
  unfold perform at h
  cases hr : c.perform.run m with
  | error t m₁ =>
    rw [hr] at h
    cases h
  | ok _ m₁ =>
    rw [hr] at h
    cases h
    exact ⟨rfl, m₁, rfl, rfl⟩

theorem run_of_perform_error (h : m.perform op c = .error t m') :
    c.perform.run m = .error t m' := by
  unfold perform at h
  cases hr : c.perform.run m with
  | error t m₁ =>
    rw [hr] at h
    cases h
    rfl
  | ok _ m₁ =>
    rw [hr] at h
    cases h

end Machine

end Asm256
