/-
The machine does what the interpreter of statements does.

Between two statements the machine and the interpreter are in corresponding
states (`Corresponds`): the pc is the size of the statements in front of the
next one, and the bytes behind the code are the data.  Each action of the
interpreter is simulated by that of the machine (`Simulates`), so each step is
(`Corresponds.step`), and so are runs of any length.
-/
import Asm256.Proofs.Program.Boundary
import Asm256.Proofs.Program.Interpreter

namespace Asm256

open Statement (totalSize)

/-- What the machine fails with when the interpreter stops.  It is never stuck. -/
def Program.Stop.trap? (p : Program) : Stop → Option Trap
  | .pastEnd => some (.fault (.readPastMemory (totalSize p.statements)))
  | .outOfBoundsRead offset => some (.fault (.outOfBoundsRead offset.toNat))
  | .outOfBoundsWrite offset => some (.fault (.outOfBoundsWrite offset.toNat))
  | .inputExhausted => some (.fault .inputExhausted)
  | .tooLong e => some (.tooLong e)
  | .stuck => none

/-- The machine and the interpreter are in corresponding states. -/
structure Corresponds (a : Assembly) (m : Machine) (s : Program.State) : Prop
    extends Machine.Runs a m where
  index_le : s.index ≤ a.statements.length
  pc_eq : m.pc = totalSize (a.statements.take s.index)
  registers_eq : m.registers = s.registers
  difference_eq : m.difference = s.difference
  borrow_eq : m.borrow = s.borrow
  halted_eq : m.halted = s.halted
  data_eq : ∀ offset (h : m.codeSize + offset < memorySize),
    m.memory[m.codeSize + offset] = s.data offset
  input_eq : m.input = s.input
  output_eq : m.output = s.output

/-- The machine and the interpreter come to the same end: both succeed, with related results, or
both fail for the same reason.  Their states correspond again. -/
inductive Agree (a : Assembly) {α β : Type} (R : α → β → Prop) :
    EStateM.Result Trap Machine α → EStateM.Result Program.Stop Program.State β → Prop
  | ok {v : α} {u : β} {m : Machine} {s : Program.State} (hv : R v u) (h : Corresponds a m s) :
    Agree a R (.ok v m) (.ok u s)
  | error {t : Trap} {stop : Program.Stop} {m : Machine} {s : Program.State}
    (ht : stop.trap? a.program = some t) (h : Corresponds a m s) : Agree a R (.error t m) (.error stop s)

namespace Agree

variable {a : Assembly} {α β : Type} {R : α → β → Prop} {m : Machine}
  {r : EStateM.Result Program.Stop Program.State β}

theorem of_ok {v : α} (h : Agree a R (.ok v m) r) :
    ∃ u s, r = .ok u s ∧ R v u ∧ Corresponds a m s := by
  cases h with
  | ok hv h => exact ⟨_, _, rfl, hv, h⟩

theorem of_error {t : Trap} (h : Agree a R (.error t m) r) :
    ∃ stop s, r = .error stop s ∧ stop.trap? a.program = some t ∧ Corresponds a m s := by
  cases h with
  | error ht h => exact ⟨_, _, rfl, ht, h⟩

end Agree

/-- From corresponding states, the machine and the interpreter come to the same end. -/
def Simulates (a : Assembly) {α β : Type} (R : α → β → Prop) (x : Exec α) (y : Program.Exec β) :
    Prop :=
  ∀ m s, Corresponds a m s → Agree a R (x.run m) (y.run s)

/-! ### Actions -/

section Actions

variable {a : Assembly} {α β γ δ : Type} {R : α → β → Prop} {S : γ → δ → Prop}
  {x : Exec α} {y : Program.Exec β} {m : Machine} {s : Program.State}

theorem Simulates.bind {f : α → Exec γ} {g : β → Program.Exec δ} (hx : Simulates a R x y)
    (hf : ∀ v u, R v u → Simulates a S (f v) (g u)) : Simulates a S (x >>= f) (y >>= g) := by
  intro m s h
  rw [EStateM.run_bind, EStateM.run_bind]
  have hr := hx m s h
  cases hxm : x.run m with
  | ok v m₁ =>
    rw [hxm] at hr
    obtain ⟨u, s₁, hs, hv, h₁⟩ := hr.of_ok
    rw [hs]
    exact hf v u hv m₁ s₁ h₁
  | error t m₁ =>
    rw [hxm] at hr
    obtain ⟨stop, s₁, hs, ht, h₁⟩ := hr.of_error
    rw [hs]
    exact .error ht h₁

theorem simulates_pure (v : α) : Simulates a Eq (pure v) (pure v) :=
  fun _ _ h => .ok rfl h

theorem simulates_modify {f : Machine → Machine} {g : Program.State → Program.State}
    (hf : ∀ m s, Corresponds a m s → Corresponds a (f m) (g s)) :
    Simulates a Eq (modify f) (modify g) :=
  fun m s h => .ok rfl (hf m s h)

theorem simulates_register (r : Register) :
    Simulates a Eq (Exec.register r) (Program.Exec.register r) := by
  intro m s h
  refine .ok ?_ h
  show m.registers.get r = s.registers.get r
  rw [h.registers_eq]

theorem simulates_value (source : Source) :
    Simulates a Eq source.value (Program.Exec.value source) := by
  cases source with
  | register r => exact simulates_register r
  | literal v => exact simulates_pure v

theorem simulates_setRegister (r : Register) (v : UInt8) :
    Simulates a Eq (Exec.setRegister r v) (Program.Exec.setRegister r v) :=
  simulates_modify fun m s h => { h with registers_eq := by rw [h.registers_eq] }

theorem simulates_print (v : UInt8) :
    Simulates a Eq (Exec.print v) (Program.Exec.print v) :=
  simulates_modify fun m s h => { h with output_eq := by rw [h.output_eq] }

theorem simulates_readInput :
    Simulates a Eq Exec.readInput Program.Exec.readInput := by
  intro m s h
  have hinput : Corresponds a { m with input := (LineStream.readByte m.input).2 }
      { s with input := (LineStream.readByte m.input).2 } := { h with input_eq := rfl }
  rw [Exec.run_readInput]
  simp only [Program.Exec.readInput, EStateM.run_bind, EStateM.run_get, EStateM.run_set,
    ← h.input_eq]
  cases hr : (LineStream.readByte m.input).1 with
  | ok v => exact .ok rfl hinput
  | error t =>
    -- what was read of the input is gone, even when there was no number
    obtain rfl | ⟨e, rfl⟩ := LineStream.readByte_error hr
    · exact .error rfl hinput
    · exact .error rfl hinput

/-- An offset of the interpreter lies in the memory of the machine. -/
theorem Corresponds.lt_dataSize_iff (h : Corresponds a m s) (hsound : a.Sound .standard)
    (offset : Nat) : offset < a.program.dataSize ↔ m.codeSize + offset < memorySize := by
  have hsize : m.codeSize = totalSize a.statements := h.codeSize_eq.trans hsound.codeSize_eq
  show offset < memorySize - totalSize a.statements ↔ _
  rw [← hsize]
  omega

theorem simulates_readData (hsound : a.Sound .standard) (offset : UInt8) :
    Simulates a Eq (Exec.readData offset.toNat) (Program.Exec.readData a.program offset) := by
  intro m s h
  rw [Exec.run_readData_natCast, Program.Exec.readData]
  by_cases hlt : m.codeSize + offset.toNat < memorySize
  · rw [dif_pos hlt, if_pos ((h.lt_dataSize_iff hsound _).2 hlt)]
    exact .ok (h.data_eq offset.toNat hlt) h
  · rw [dif_neg hlt, if_neg (mt (h.lt_dataSize_iff hsound _).1 hlt)]
    exact .error rfl h

theorem simulates_writeData (hsound : a.Sound .standard) (offset v : UInt8) :
    Simulates a Eq (Exec.writeData offset.toNat v) (Program.Exec.writeData a.program offset v) := by
  intro m s h
  rw [Exec.run_writeData_natCast, Program.Exec.writeData]
  by_cases hlt : m.codeSize + offset.toNat < memorySize
  · rw [dif_pos hlt, if_pos ((h.lt_dataSize_iff hsound _).2 hlt)]
    refine .ok rfl { h with code_eq := ?_, data_eq := fun o ho => ?_ }
    · -- the byte is behind the code
      rw [← h.code_eq]
      show (m.memory.set (m.codeSize + offset.toNat) v).toList.take m.codeSize = _
      rw [Vector.toList_set, List.take_set_of_le (Nat.le_add_right _ _)]
      rfl
    · show (m.memory.set (m.codeSize + offset.toNat) v)[m.codeSize + o] =
        if o = offset.toNat then v else s.data o
      rw [Vector.getElem_set]
      -- offsets are different exactly when their addresses are
      by_cases heq : o = offset.toNat
      · rw [if_pos (by rw [heq]), if_pos heq]
      · rw [if_neg (by omega), if_neg heq]
        exact h.data_eq o ho
  · rw [dif_neg hlt, if_neg (mt (h.lt_dataSize_iff hsound _).1 hlt)]
    exact .error rfl h

end Actions

/-! ### Commands -/

section Commands

variable {a : Assembly} {name : String} {s : Statement}

/-- The byte of a label is where the statements behind its definition start. -/
structure Reaches (a : Assembly) (name : String) (i : Nat) : Prop where
  index?_eq : a.program.index? name = some i
  index_le : i ≤ a.statements.length
  byte_eq : (a.labels.byte name).toNat = totalSize (a.statements.take i)

/-- A label reaches the statements behind its definition, unless it is at the end of the memory. -/
theorem Assembly.Sound.reaches (h : a.Sound .standard) (hs : s ∈ a.statements)
    {o : Spelled Operand} (ho : o ∈ s.operands) (hname : o.value = .label name)
    (hend : ∀ l, a.labels.find? name = some l → l.address ≠ 256) : ∃ i, Reaches a name i := by
  obtain ⟨l, front, back, hl, heq, haddress, hfront, hback⟩ := h.address hs ho hname
  have hle : totalSize a.statements ≤ 256 := h.totalSize_le
  have hne := hend l hl
  -- the statements in front of the label are those that stand before it in the text
  have hcount : a.statements.countP (fun s => decide (s.mnemonic.pos.Before l.pos)) =
      front.length := by
    have hall : front.countP (fun s => decide (s.mnemonic.pos.Before l.pos)) = front.length :=
      List.countP_eq_length.2 fun s hs => decide_eq_true (hfront s hs)
    have hnone : back.countP (fun s => decide (s.mnemonic.pos.Before l.pos)) = 0 :=
      List.countP_eq_zero.2 fun s hs => by simpa using (hback s hs).asymm
    rw [heq, List.countP_append, hall, hnone, Nat.add_zero]
  refine ⟨front.length, ?_, by simp [heq], ?_⟩
  · show (a.labels.find? name).map _ = _
    rw [hl, Option.map_some]
    exact congrArg some hcount
  · rw [heq, Statement.totalSize_append] at hle
    rw [LabelTable.toNat_byte hl haddress, heq, List.take_left, Nat.mod_eq_of_lt (by omega)]

theorem simulates_branch {i : Nat} (h : Reaches a name i) (cond : Condition) :
    Simulates a Eq (Command.branch cond (a.labels.byte name)).perform
      (Program.Exec.perform a.program (.branch cond name)) := by
  intro m s hms
  rw [Command.run_branch]
  simp only [Program.Exec.perform, EStateM.run_bind, EStateM.run_get]
  rw [← hms.difference_eq, ← hms.borrow_eq]
  by_cases hcond : cond.holds m.difference m.borrow = true
  · rw [if_pos hcond, if_pos hcond, Program.Exec.jump, h.index?_eq]
    exact .ok rfl { hms with index_le := h.index_le, pc_eq := h.byte_eq }
  · rw [if_neg hcond, if_neg hcond]
    exact .ok rfl hms

/-- **The command of a statement does what the interpreter does.** -/
theorem simulates_perform (hsound : a.Sound .standard) (c : Command String)
    (hbranch : ∀ cond name, c = .branch cond name → ∃ i, Reaches a name i) :
    Simulates a Eq (c.map a.labels.byte).perform (Program.Exec.perform a.program c) := by
  cases c with
  | nop => exact simulates_pure _
  | halt => exact simulates_modify fun m s h => { h with halted_eq := rfl }
  | load target offset =>
    refine (simulates_readData hsound offset).bind ?_
    rintro v _ rfl
    exact simulates_setRegister target v
  | store source offset =>
    refine (simulates_register source).bind ?_
    rintro v _ rfl
    exact simulates_writeData hsound offset v
  | compute f target left right =>
    refine (simulates_register left).bind ?_
    rintro v _ rfl
    refine (simulates_value right).bind ?_
    rintro u _ rfl
    exact simulates_setRegister target (f.apply v u)
  | move target source =>
    refine (simulates_value source).bind ?_
    rintro v _ rfl
    exact simulates_setRegister target v
  | complement target source =>
    refine (simulates_value source).bind ?_
    rintro v _ rfl
    exact simulates_setRegister target (~~~v)
  | compare left right =>
    refine (simulates_register left).bind ?_
    rintro v _ rfl
    refine (simulates_value right).bind ?_
    rintro u _ rfl
    exact simulates_modify fun m s h => { h with difference_eq := rfl, borrow_eq := rfl }
  | branch cond name =>
    obtain ⟨i, hi⟩ := hbranch cond name rfl
    exact simulates_branch hi cond
  | printRegister source =>
    refine (simulates_register source).bind ?_
    rintro v _ rfl
    exact simulates_print v
  | printMemory offset =>
    refine (simulates_readData hsound offset).bind ?_
    rintro v _ rfl
    exact simulates_print v
  | inputRegister target =>
    refine simulates_readInput.bind ?_
    rintro v _ rfl
    exact simulates_setRegister target v
  | inputMemory offset =>
    refine simulates_readInput.bind ?_
    rintro v _ rfl
    exact simulates_writeData hsound offset v

end Commands

/-! ### Steps and runs -/

/-- No label that an operand names stands for the end of a memory that is full of code. -/
def Assembly.TargetsFit (a : Assembly) : Prop :=
  ∀ s ∈ a.statements, ∀ o ∈ s.operands, ∀ name, o.value = .label name →
    ∀ l, a.labels.find? name = some l → l.address ≠ 256

/-- The opcode is the one that the statement is encoded by. -/
def Opcode.Encodes (op : Opcode) (s : Statement) : Prop :=
  SignatureTree.standard.find? s.mnemonic.value s.kinds = some op

/-- What the run of the machine ends with when the run of the interpreter does. -/
def Program.Ending.ending? (p : Program) : Program.Ending → Option Asm256.Ending
  | .halted => some .halted
  | .stopped stop => (stop.trap? p).map .failed
  | .running => some .running

namespace Corresponds

variable {a : Assembly} {m : Machine} {s : Program.State}

/-- A machine with the image of an assembly in its memory starts as the interpreter does. -/
theorem start (hsound : a.Sound .standard) (input : List Char) :
    Corresponds a (.ofImage a.image input) { input } where
  codeSize_eq := rfl
  code_eq := rfl
  index_le := Nat.zero_le _
  pc_eq := rfl
  registers_eq := rfl
  difference_eq := rfl
  borrow_eq := rfl
  halted_eq := rfl
  data_eq := by
    intro offset h
    exact hsound.image.getElem_behind (Nat.le_add_right _ _) h
  input_eq := rfl
  output_eq := rfl

/-- **The machine executes the statement that the interpreter executes.** -/
theorem step (h : Corresponds a m s) (hsound : a.Sound .standard) (hfit : a.TargetsFit) :
    Agree a Opcode.Encodes m.step (a.program.step s) := by
  have hrun : a.program.step s = (Program.Exec.step a.program).run s := rfl
  cases hi : a.statements[s.index]? with
  | none =>
    -- both are behind all statements
    have hend : s.index = a.statements.length :=
      Nat.le_antisymm h.index_le (List.getElem?_eq_none_iff.1 hi)
    have hpc : m.pc = totalSize a.statements := by rw [h.pc_eq, hend, List.take_length]
    have hp : a.program.statements[s.index]? = none := hi
    rw [h.toRuns.step_behind hsound hpc, hrun]
    simp only [Program.Exec.step, EStateM.run_bind, EStateM.run_get, hp]
    refine .error ?_ h
    rw [hpc]
    rfl
  | some st =>
    obtain ⟨hlt, hst⟩ := List.getElem?_eq_some_iff.1 hi
    have hsplit : a.statements = a.statements.take s.index ++ st :: a.statements.drop (s.index + 1) := by
      rw [← hst, ← List.drop_eq_getElem_cons hlt, List.take_append_drop]
    obtain ⟨op, c, hop, hc, hstep⟩ := h.toRuns.step_at hsound hsplit h.pc_eq
    have hmem : st ∈ a.statements := List.mem_of_getElem? hi
    -- with the bytes of `st` taken off the code, the states correspond at the next index, and from
    -- there the command is simulated
    have hnext : Corresponds a (m.advance st.size) { s with index := s.index + 1 } :=
      { h with
        index_le := hlt
        pc_eq := by
          show m.pc + st.size = totalSize (a.statements.take (s.index + 1))
          rw [List.take_add_one, hi, Statement.totalSize_append, h.pc_eq]
          simp }
    have hperform := simulates_perform hsound c (fun cond name hbranch => by
      rw [hbranch] at hc
      obtain ⟨o, ho, hname⟩ := List.mem_map.1 (Mnemonic.mem_of_command?_branch hc)
      exact hsound.reaches hmem ho hname (hfit st hmem o ho name hname)) _ _ hnext
    have hp : a.program.statements[s.index]? = some st := hi
    rw [hstep, hrun, Machine.perform]
    simp only [Program.Exec.step, EStateM.run_bind, EStateM.run_get, EStateM.run_set, hp, hc]
    cases hm : (c.map a.labels.byte).perform.run (m.advance st.size) with
    | ok v m₁ =>
      rw [hm] at hperform
      obtain ⟨u, s₁, hs, -, h₁⟩ := hperform.of_ok
      rw [hs]
      exact .ok hop { h₁ with }
    | error t m₁ =>
      rw [hm] at hperform
      obtain ⟨stop, s₁, hs, ht, h₁⟩ := hperform.of_error
      rw [hs]
      exact .error ht h₁

/-- Any number of steps. -/
theorem iterate (h : Corresponds a m s) (hsound : a.Sound .standard) (hfit : a.TargetsFit)
    (n : Nat) : Agree a Eq (m.iterate n) (a.program.iterate n s) := by
  have hsim : Simulates a Eq (Exec.iterate n) (Program.Exec.iterate a.program n) := by
    -- the states are those after the first step, so the induction is over all of them
    induction n with
    | zero => exact simulates_pure ()
    | succ n ih =>
      exact Simulates.bind (fun m s h => h.step hsound hfit) fun _ _ _ => ih
  exact hsim m s h

/-- Runs that stop when the machine halts. -/
theorem run (h : Corresponds a m s) (hsound : a.Sound .standard) (hfit : a.TargetsFit)
    (limit : Nat) : (a.program.run limit s).1.ending? a.program = some (m.run limit).1 ∧
      Corresponds a (m.run limit).2 (a.program.run limit s).2 := by
  induction limit generalizing m s with
  | zero =>
    refine ⟨?_, h⟩
    show Program.Ending.ending? a.program (if s.halted then .halted else .running) = _
    rw [Machine.run, ← h.halted_eq]
    cases m.halted <;> rfl
  | succ limit ih =>
    rw [Machine.run, Program.run, ← h.halted_eq]
    by_cases hh : m.halted = true
    · rw [if_pos hh, if_pos hh]
      exact ⟨rfl, h⟩
    · rw [if_neg hh, if_neg hh]
      have hs := h.step hsound hfit
      cases hm : m.step with
      | ok v m₁ =>
        rw [hm] at hs
        obtain ⟨u, s₁, hp, -, h₁⟩ := hs.of_ok
        rw [hp]
        exact ih h₁
      | error t m₁ =>
        rw [hm] at hs
        obtain ⟨stop, s₁, hp, ht, h₁⟩ := hs.of_error
        rw [hp]
        refine ⟨?_, h₁⟩
        show (stop.trap? a.program).map Ending.failed = _
        rw [ht]
        rfl

end Corresponds

end Asm256
