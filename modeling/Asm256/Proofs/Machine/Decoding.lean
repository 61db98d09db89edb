/-
What a step comes to, whatever bytes are ahead.

An instruction takes its operands one after the other, and is stuck at the
first that is missing or names no register (`obstacle?`).  A branch that is not
taken does not look at its operand:
* `Operation.command?_eq_some_iff` — the bytes of a command;
* `Operation.exists_command_of_obstacle?` — bytes without an obstacle are those of a command;
* `Exec.takes_perform` — at an obstacle an operation fails for it, with the bytes up to it taken;
* `Machine.stepped` — a step is behind the code, at a byte that is no opcode, stuck, past a branch
  that is cut off, or performs a command.
-/
import Asm256.Proofs.Machine.Cycle
import Asm256.Proofs.Program.Reading

namespace Asm256

/-! ### The bytes of commands -/

/-- The byte that is the number of a register. -/
def registerByte (r : Register) : UInt8 := .ofNat r

theorem register?_eq_some_iff {b : UInt8} {r : Register} :
    register? b = some r ↔ b = registerByte r := by
  have hcount : registerCount = 13 := rfl
  have hr := r.isLt
  have hbyte : (registerByte r).toNat = r := by
    rw [registerByte, UInt8.toNat_ofNat', Nat.mod_eq_of_lt (by omega)]
  rw [register?, ← UInt8.toNat_inj, hbyte]
  by_cases hb : b.toNat < registerCount
  · rw [dif_pos hb, Option.some.injEq, Fin.ext_iff]
  · simp only [dif_neg hb, reduceCtorEq, false_iff]
    omega

@[simp] theorem register?_registerByte (r : Register) : register? (registerByte r) = some r :=
  register?_eq_some_iff.2 rfl

namespace Source

/-- How the operand is given. -/
def mode : Source → Addressing
  | register _ => .register
  | literal _ => .literal

/-- The byte that the operand is given by. -/
def byte : Source → UInt8
  | register r => registerByte r
  | literal value => value

theorem ofByte?_eq_some_iff {mode : Addressing} {b : UInt8} {s : Source} :
    ofByte? mode b = some s ↔ mode = s.mode ∧ b = s.byte := by
  cases mode <;> cases s <;> simp [ofByte?, Source.mode, byte, register?_eq_some_iff]

@[simp] theorem ofByte?_byte (s : Source) : ofByte? s.mode s.byte = some s :=
  ofByte?_eq_some_iff.2 ⟨rfl, rfl⟩

end Source

namespace Command

/-- The operation of a command. -/
def operation {Target : Type} : Command Target → Operation
  | nop => .nop
  | halt => .halt
  | load _ _ => .load
  | store _ _ => .store
  | compute f _ _ right => .compute f right.mode
  | move _ source => .move source.mode
  | complement _ source => .complement source.mode
  | compare _ right => .compare right.mode
  | branch c _ => .branch c
  | printRegister _ => .printRegister
  | printMemory _ => .printMemory
  | inputRegister _ => .inputRegister
  | inputMemory _ => .inputMemory

/-- The bytes of the operands of a command. -/
def bytes : Command UInt8 → List UInt8
  | nop | halt => []
  | load r offset | store r offset => [registerByte r, offset]
  | compute _ target left right => [registerByte target, registerByte left, right.byte]
  | move r source | complement r source | compare r source => [registerByte r, source.byte]
  | branch _ b | printMemory b | inputMemory b => [b]
  | printRegister r | inputRegister r => [registerByte r]

end Command

/-- **The operands of an operation are those of one command**, and of no other. -/
theorem Operation.command?_eq_some_iff {op : Operation} {args : List UInt8} {c : Command UInt8} :
    op.command? args = some c ↔ op = c.operation ∧ args = c.bytes := by
  constructor
  · -- one case for each row of `Operation.command?`
    fun_cases Operation.command? op args <;> intro h <;>
      simp only [Option.bind_eq_bind, Option.bind_eq_some_iff, Option.pure_def, Option.some.injEq,
        register?_eq_some_iff, Source.ofByte?_eq_some_iff, reduceCtorEq] at h
    all_goals grind [Command.operation, Command.bytes]
  · rintro ⟨rfl, rfl⟩
    cases c <;> simp [Command.operation, Command.bytes, command?]

/-! ### Obstacles -/

/-- Why an instruction does not get all of its operands: behind `taken` bytes the code ends, or the
last of them is a byte that names no register. -/
structure Obstacle where
  taken : Nat
  byte? : Option UInt8
  deriving DecidableEq, Repr

namespace Obstacle

/-- The obstacle seen from one byte before. -/
def later (o : Obstacle) : Obstacle := { o with taken := o.taken + 1 }

/-- The failure of an instruction at `start` that has its operands from `pc` on. -/
def trap (start pc : Nat) (o : Obstacle) : Trap :=
  match o.byte? with
  | none => .fault (.readPastMemory ↑(pc + o.taken))
  | some b => .fault (.invalidRegister b.toNat start)

theorem trap_later (start pc : Nat) (o : Obstacle) :
    o.later.trap start pc = o.trap start (pc + 1) := by
  have hpc : pc + (o.taken + 1) = pc + 1 + o.taken := by omega
  unfold trap later
  cases o.byte? <;> simp [hpc]

end Obstacle

variable {k : OperandKind} {ks : List OperandKind} {b : UInt8} {bs : List UInt8} {o : Obstacle}

/-- The byte names no register where one is asked for. -/
def OperandKind.Rejects (k : OperandKind) (b : UInt8) : Prop :=
  k = .register ∧ registerCount ≤ b.toNat

instance (k : OperandKind) (b : UInt8) : Decidable (k.Rejects b) :=
  inferInstanceAs (Decidable (_ ∧ _))

/-- The first operand of these kinds that the bytes do not give. -/
def obstacle? : List OperandKind → List UInt8 → Option Obstacle
  | [], _ => none
  | _ :: _, [] => some ⟨0, none⟩
  | k :: ks, b :: bs =>
      if k.Rejects b then some ⟨1, some b⟩ else (obstacle? ks bs).map .later

theorem obstacle?_cons_eq_none : obstacle? (k :: ks) bs = none ↔
    ∃ b rest, bs = b :: rest ∧ ¬ k.Rejects b ∧ obstacle? ks rest = none := by
  cases bs with
  | nil => simp [obstacle?]
  | cons b bs => by_cases h : k.Rejects b <;> simp [obstacle?, h]

/-- Among as many bytes as there are operands, only one that names no register is an obstacle. -/
theorem map_byte?_obstacle? {values : List UInt8} (h : values.length = ks.length)
    (rest : List UInt8) : (obstacle? ks (values ++ rest)).map Obstacle.byte? =
      ((ks.zip values).find? fun o => o.1.Rejects o.2).map fun o => some o.2 := by
  induction ks generalizing values with
  | nil =>
    obtain rfl := List.eq_nil_of_length_eq_zero h
    rfl
  | cons k ks ih =>
    obtain ⟨v, values, rfl⟩ := List.exists_cons_of_length_eq_add_one h
    rw [List.length_cons, List.length_cons, Nat.add_right_cancel_iff] at h
    rw [List.cons_append, obstacle?, List.zip_cons_cons, List.find?_cons]
    by_cases hv : k.Rejects v
    · simp [hv]
    · simp only [if_neg hv, decide_eq_false hv, Option.map_map, ← ih h]
      rfl

/-- Among fewer bytes, a byte that names no register or the end of the bytes is an obstacle. -/
theorem exists_obstacle (h : bs.length < ks.length) : ∃ o, obstacle? ks bs = some o ∧
    (o = ⟨bs.length, none⟩ ∨ ∃ b, o.byte? = some b ∧ registerCount ≤ b.toNat) := by
  induction ks generalizing bs with
  | nil => exact absurd h (Nat.not_lt_zero _)
  | cons k ks ih =>
    cases bs with
    | nil => exact ⟨_, rfl, .inl rfl⟩
    | cons b bs =>
      rw [obstacle?]
      by_cases hb : k.Rejects b
      · exact ⟨_, if_pos hb, .inr ⟨b, rfl, hb.2⟩⟩
      · obtain ⟨o, ho, hcase⟩ := ih (Nat.lt_of_succ_lt_succ h)
        rw [if_neg hb, ho]
        refine ⟨o.later, rfl, hcase.imp ?_ id⟩
        rintro rfl
        rfl

theorem exists_register (h : ¬ OperandKind.register.Rejects b) : ∃ r, register? b = some r := by
  have hlt : b.toNat < registerCount := by simpa [OperandKind.Rejects] using h
  exact ⟨_, dif_pos hlt⟩

theorem exists_source {mode : Addressing} (h : ¬ mode.kind.Rejects b) :
    ∃ s, Source.ofByte? mode b = some s := by
  cases mode with
  | register =>
    obtain ⟨r, hr⟩ := exists_register h
    exact ⟨.register r, by simp [Source.ofByte?, hr]⟩
  | literal => exact ⟨.literal b, rfl⟩

/-- **Bytes without an obstacle are those of a command**, up to the last operand. -/
theorem Operation.exists_command_of_obstacle? {op : Operation}
    (h : obstacle? op.kinds bs = none) : ∃ args rest c,
      bs = args ++ rest ∧ args.length = op.kinds.length ∧ op.command? args = some c := by
  cases op with
  | nop => exact ⟨[], bs, .nop, rfl, rfl, rfl⟩
  | halt => exact ⟨[], bs, .halt, rfl, rfl, rfl⟩
  | load =>
    obtain ⟨t, bs₁, rfl, ht, h⟩ := obstacle?_cons_eq_none.1 h
    obtain ⟨offset, rest, rfl, -, -⟩ := obstacle?_cons_eq_none.1 h
    obtain ⟨r, hr⟩ := exists_register ht
    exact ⟨[t, offset], rest, .load r offset, rfl, rfl, by simp [command?, hr]⟩
  | store =>
    obtain ⟨s, bs₁, rfl, hs, h⟩ := obstacle?_cons_eq_none.1 h
    obtain ⟨offset, rest, rfl, -, -⟩ := obstacle?_cons_eq_none.1 h
    obtain ⟨r, hr⟩ := exists_register hs
    exact ⟨[s, offset], rest, .store r offset, rfl, rfl, by simp [command?, hr]⟩
  | compute f mode =>
    obtain ⟨t, bs₁, rfl, ht, h⟩ := obstacle?_cons_eq_none.1 h
    obtain ⟨a, bs₂, rfl, ha, h⟩ := obstacle?_cons_eq_none.1 h
    obtain ⟨b, rest, rfl, hb, -⟩ := obstacle?_cons_eq_none.1 h
    obtain ⟨r, hr⟩ := exists_register ht
    obtain ⟨left, hleft⟩ := exists_register ha
    obtain ⟨right, hright⟩ := exists_source hb
    exact ⟨[t, a, b], rest, .compute f r left right, rfl, rfl, by
      simp [command?, hr, hleft, hright]⟩
  | move mode =>
    obtain ⟨t, bs₁, rfl, ht, h⟩ := obstacle?_cons_eq_none.1 h
    obtain ⟨b, rest, rfl, hb, -⟩ := obstacle?_cons_eq_none.1 h
    obtain ⟨r, hr⟩ := exists_register ht
    obtain ⟨s, hs⟩ := exists_source hb
    exact ⟨[t, b], rest, .move r s, rfl, rfl, by simp [command?, hr, hs]⟩
  | complement mode =>
    obtain ⟨t, bs₁, rfl, ht, h⟩ := obstacle?_cons_eq_none.1 h
    obtain ⟨b, rest, rfl, hb, -⟩ := obstacle?_cons_eq_none.1 h
    obtain ⟨r, hr⟩ := exists_register ht
    obtain ⟨s, hs⟩ := exists_source hb
    exact ⟨[t, b], rest, .complement r s, rfl, rfl, by simp [command?, hr, hs]⟩
  | compare mode =>
    obtain ⟨a, bs₁, rfl, ha, h⟩ := obstacle?_cons_eq_none.1 h
    obtain ⟨b, rest, rfl, hb, -⟩ := obstacle?_cons_eq_none.1 h
    obtain ⟨left, hleft⟩ := exists_register ha
    obtain ⟨right, hright⟩ := exists_source hb
    exact ⟨[a, b], rest, .compare left right, rfl, rfl, by simp [command?, hleft, hright]⟩
  | branch cond =>
    obtain ⟨address, rest, rfl, -, -⟩ := obstacle?_cons_eq_none.1 h
    exact ⟨[address], rest, .branch cond address, rfl, rfl, rfl⟩
  | printRegister =>
    obtain ⟨s, rest, rfl, hs, -⟩ := obstacle?_cons_eq_none.1 h
    obtain ⟨r, hr⟩ := exists_register hs
    exact ⟨[s], rest, .printRegister r, rfl, rfl, by simp [command?, hr]⟩
  | printMemory =>
    obtain ⟨offset, rest, rfl, -, -⟩ := obstacle?_cons_eq_none.1 h
    exact ⟨[offset], rest, .printMemory offset, rfl, rfl, rfl⟩
  | inputRegister =>
    obtain ⟨t, rest, rfl, ht, -⟩ := obstacle?_cons_eq_none.1 h
    obtain ⟨r, hr⟩ := exists_register ht
    exact ⟨[t], rest, .inputRegister r, rfl, rfl, by simp [command?, hr]⟩
  | inputMemory =>
    obtain ⟨offset, rest, rfl, -, -⟩ := obstacle?_cons_eq_none.1 h
    exact ⟨[offset], rest, .inputMemory offset, rfl, rfl, rfl⟩

/-! ### Failing at an obstacle -/

namespace Exec

variable {α β : Type} {start : Nat} {m : Machine} {f : UInt8 → Exec β}

/-- The action takes operands of these kinds, and fails at an obstacle with the bytes up to there
taken. -/
def Takes (start : Nat) (ks : List OperandKind) (x : Exec α) : Prop :=
  ∀ {m : Machine} {o : Obstacle}, obstacle? ks m.ahead = some o →
    x.run m = .error (o.trap start m.pc) (m.advance o.taken)

theorem takes_nil (x : Exec α) : Takes start [] x := by
  intro m o h
  cases h

theorem run_fetchRegister_of_rejects (h : m.ahead = b :: bs)
    (hb : OperandKind.register.Rejects b) : (fetchRegister start).run m =
      .error (.fault (.invalidRegister b.toNat start)) (m.advance 1) := by
  have hlt := Nat.not_lt.2 hb.2
  simp [fetchRegister, run_fetch h, hlt, fault]

/-- One operand, and then the others. -/
theorem Takes.cons {x : Exec α} {g : α → Exec β}
    (hend : ∀ {m : Machine}, m.ahead = [] → x.run m = .error (.fault (.readPastMemory m.pc)) m)
    (hreject : ∀ {m : Machine} {b bs}, m.ahead = b :: bs → k.Rejects b →
      x.run m = .error (.fault (.invalidRegister b.toNat start)) (m.advance 1))
    (hok : ∀ {m : Machine} {b bs}, m.ahead = b :: bs → ¬ k.Rejects b →
      ∃ v, x.run m = .ok v (m.advance 1))
    (hg : ∀ v, Takes start ks (g v)) : Takes start (k :: ks) (x >>= g) := by
  intro m o h
  rw [EStateM.run_bind]
  cases hahead : m.ahead with
  | nil =>
    rw [hahead] at h
    cases h
    rw [hend hahead]
    rfl
  | cons b bs =>
    rw [hahead, obstacle?] at h
    split at h
    · next hb =>
      cases h
      rw [hreject hahead hb]
      rfl
    · next hb =>
      obtain ⟨o, ho, rfl⟩ := Option.map_eq_some_iff.1 h
      obtain ⟨v, hv⟩ := hok hahead hb
      rw [← Machine.ahead_advance_of_cons hahead] at ho
      rw [hv, Obstacle.trap_later]
      refine (hg v ho).trans ?_
      rw [Machine.advance_advance, Nat.add_comm]
      rfl

theorem takes_fetch (hk : k ≠ .register) (hf : ∀ v, Takes start ks (f v)) :
    Takes start (k :: ks) (fetch >>= f) :=
  Takes.cons run_fetch_end (fun _ hb => absurd hb.1 hk) (fun h _ => ⟨_, run_fetch h⟩) hf

theorem takes_fetchRegister {g : Register → Exec β} (hg : ∀ r, Takes start ks (g r)) :
    Takes start (.register :: ks) (fetchRegister start >>= g) := by
  refine Takes.cons (fun h => ?_) run_fetchRegister_of_rejects (fun h hb => ?_) hg
  · simp [fetchRegister, run_fetch_end h]
  · obtain ⟨r, hr⟩ := exists_register hb
    exact ⟨r, run_fetchRegister h hr⟩

theorem takes_fetchOperand (mode : Addressing) (hf : ∀ v, Takes start ks (f v)) :
    Takes start (mode.kind :: ks) (fetchOperand start mode >>= f) := by
  cases mode with
  | register =>
    -- a register is looked up when its number is taken, and the lookup takes no byte
    rw [fetchOperand, bind_assoc]
    exact takes_fetchRegister fun r => fun {m o} h => hf (m.registers.get r) h
  | literal => exact takes_fetch (by decide) hf

/-- **At an obstacle an operation fails**, unless it is a branch, which may not look at it. -/
theorem takes_perform {op : Operation} (hop : ∀ c, op ≠ .branch c) :
    Takes start op.kinds (perform start op) := by
  cases op with
  | nop | halt => exact takes_nil _
  | load | store =>
    exact takes_fetchRegister fun _ => takes_fetch (by decide) fun _ => takes_nil _
  | compute f mode =>
    exact takes_fetchRegister fun _ => takes_fetchOperand .register fun _ =>
      takes_fetchOperand mode fun _ => takes_nil _
  | move mode | complement mode =>
    exact takes_fetchRegister fun _ => takes_fetchOperand mode fun _ => takes_nil _
  | compare mode =>
    exact takes_fetchOperand .register fun _ => takes_fetchOperand mode fun _ => takes_nil _
  | branch c => exact absurd rfl (hop c)
  | printRegister | inputRegister => exact takes_fetchRegister fun _ => takes_nil _
  | printMemory | inputMemory => exact takes_fetch (by decide) fun _ => takes_nil _

end Exec

/-! ### Steps -/

namespace Operation

variable {m : Machine} {op : Operation} {c : Condition}

/-- The operation is no branch, or one that is taken with the flags of the machine. -/
def TakesOperands (m : Machine) (op : Operation) : Prop :=
  ∀ c, op = .branch c → c.holds m.difference m.borrow = true

theorem exists_branch_of_not_takesOperands (h : ¬ op.TakesOperands m) :
    ∃ c, op = .branch c ∧ ¬ c.holds m.difference m.borrow = true := by
  unfold TakesOperands at h
  push Not at h
  exact h

/-- All that can be in the way of a branch is the end of the code. -/
theorem obstacle?_branch (h : obstacle? (branch c).kinds bs = some o) : bs = [] ∧ o = ⟨0, none⟩ := by
  cases bs with
  | nil =>
    cases h
    exact ⟨rfl, rfl⟩
  | cons b bs => simp [kinds, obstacle?, OperandKind.Rejects] at h

end Operation

namespace Machine

variable {m : Machine} {op : Opcode}

/-- A step at an obstacle fails for it. -/
theorem step_of_obstacle (h : m.ahead = op.toByte :: bs)
    (ho : obstacle? op.operation.kinds bs = some o) (htakes : op.operation.TakesOperands m) :
    m.step = .error (o.trap m.pc (m.pc + 1)) (m.advance (1 + o.taken)) := by
  have hahead := ahead_advance_of_cons h
  have hp : (Exec.perform m.pc op.operation).run (m.advance 1) =
      .error (o.trap m.pc (m.pc + 1)) ((m.advance 1).advance o.taken) := by
    by_cases hb : ∃ c, op.operation = .branch c
    · obtain ⟨c, hc⟩ := hb
      rw [hc] at ho
      obtain ⟨rfl, rfl⟩ := Operation.obstacle?_branch ho
      rw [hc, Exec.run_perform_branch, difference_advance, borrow_advance, if_pos (htakes c hc),
        Exec.run_fetch_end hahead]
      rfl
    · rw [← hahead] at ho
      exact Exec.takes_perform (fun c hc => hb ⟨c, hc⟩) ho
  rw [step_of_opcode h (Opcode.ofByte?_toByte op), hp, advance_advance]

/-- A step passes over a branch that is not taken, with or without its operand. -/
theorem step_of_not_taken {c : Condition} (h : m.ahead = op.toByte :: bs)
    (hc : op.operation = .branch c) (hnot : ¬ c.holds m.difference m.borrow = true) :
    m.step = .ok op { m.advance 2 with steps := m.steps + 1 } := by
  rw [step_of_opcode h (Opcode.ofByte?_toByte op), hc, Exec.run_perform_branch,
    difference_advance, borrow_advance, if_neg hnot]
  rfl

/-- What a step can come to, by the bytes ahead. -/
inductive Stepped (m : Machine) : EStateM.Result Trap Machine Opcode → Prop
  | behind (h : m.ahead = []) : Stepped m (.error (.fault (.readPastMemory m.pc)) m)
  | noOpcode {b : UInt8} {bs : List UInt8} (h : m.ahead = b :: bs)
      (hop : Opcode.ofByte? b = none) :
      Stepped m (.error (.fault (.invalidOpcode b.toNat m.pc)) (m.advance 1))
  | stuck {op : Opcode} {bs : List UInt8} {o : Obstacle} (h : m.ahead = op.toByte :: bs)
      (ho : obstacle? op.operation.kinds bs = some o) (htakes : op.operation.TakesOperands m) :
      Stepped m (.error (o.trap m.pc (m.pc + 1)) (m.advance (1 + o.taken)))
  | passed {op : Opcode} {c : Condition} (h : m.ahead = [op.toByte])
      (hc : op.operation = .branch c) (hnot : ¬ c.holds m.difference m.borrow = true) :
      Stepped m (.ok op { m.advance 2 with steps := m.steps + 1 })
  | performed {op : Opcode} {args rest : List UInt8} {c : Command UInt8}
      (h : m.ahead = op.toByte :: (args ++ rest)) (hc : op.operation.command? args = some c) :
      Stepped m ((m.advance (1 + args.length)).perform op c)

/-- **What a step comes to**, on any machine. -/
theorem stepped (m : Machine) : m.Stepped m.step := by
  cases h : m.ahead with
  | nil =>
    rw [step_end h]
    exact .behind h
  | cons b bs =>
    cases hb : Opcode.ofByte? b with
    | none =>
      rw [step_of_no_opcode h hb]
      exact .noOpcode h hb
    | some op =>
      rw [← Opcode.toByte_of_ofByte? hb] at h
      cases ho : obstacle? op.operation.kinds bs with
      | none =>
        obtain ⟨args, rest, c, rfl, -, hc⟩ := Operation.exists_command_of_obstacle? ho
        rw [step_eq h hc]
        exact .performed h hc
      | some o =>
        by_cases htakes : op.operation.TakesOperands m
        · rw [step_of_obstacle h ho htakes]
          exact .stuck h ho htakes
        · obtain ⟨c, hc, hnot⟩ := Operation.exists_branch_of_not_takesOperands htakes
          rw [step_of_not_taken h hc hnot]
          rw [hc] at ho
          obtain ⟨rfl, -⟩ := Operation.obstacle?_branch ho
          exact .passed h hc hnot

end Machine

end Asm256
