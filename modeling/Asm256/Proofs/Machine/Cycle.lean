/-
Invariants of instructions, whatever the code is.

An instruction takes its bytes off the code one by one, and it may fail at each
of them.  So there is an invariant that holds between instructions and one that
holds while an instruction takes its bytes (`Exec.Cycle`):
* `Exec.Advancing.preserves_perform` — the latter is preserved by every operation but a branch;
* `Exec.Cycle.step_ok`, `Exec.Cycle.step_error` — the former holds again behind an instruction,
  whether it succeeds or fails.
-/
import Asm256.Proofs.Machine.Frame

namespace Asm256

namespace Exec

variable {α : Type} {I J : Machine → Prop} {T : Trap → Prop} {start : Nat}

theorem run_fetch_eq (m : Machine) : (∃ b, m.pc < m.codeSize ∧ fetch.run m = .ok b (m.advance 1)) ∨
    (m.codeSize ≤ m.pc ∧ fetch.run m = .error (.fault (.readPastMemory m.pc)) m) := by
  cases h : m.ahead with
  | nil => exact .inr ⟨Machine.codeSize_le_of_ahead h, run_fetch_end h⟩
  | cons b bs => exact .inl ⟨b, Machine.pc_lt_of_ahead h, run_fetch h⟩

/-- A stable invariant that is kept when a byte is taken off the code; failures to take one are in
`T`. -/
structure Advancing (I : Machine → Prop) (T : Trap → Prop) : Prop extends Stable I T where
  advance {m} : I m → m.pc < m.codeSize → I (m.advance 1)
  readPastMemory {m} : I m → m.codeSize ≤ m.pc → T (.fault (.readPastMemory m.pc))
  invalidRegister {b : UInt8} (pc : Nat) : registerCount ≤ b.toNat →
    T (.fault (.invalidRegister b.toNat pc))

namespace Advancing

variable (ha : Advancing I T)

include ha

theorem preserves_fetch : Preserves I T fetch := by
  constructor
  · intro m m' v hm h
    rcases run_fetch_eq m with ⟨b, hlt, hr⟩ | ⟨-, hr⟩
    · rw [hr] at h
      cases h
      exact ha.advance hm hlt
    · rw [hr] at h
      cases h
  · intro m m' t hm h
    rcases run_fetch_eq m with ⟨b, -, hr⟩ | ⟨hle, hr⟩
    · rw [hr] at h
      cases h
    · rw [hr] at h
      cases h
      exact ⟨hm, ha.readPastMemory hm hle⟩

theorem preserves_fetchRegister : Preserves I T (fetchRegister start) := by
  refine ha.preserves_fetch.bind fun byte => ?_
  split
  · exact preserves_pure _
  · next hlt => exact preserves_fault (ha.invalidRegister _ (Nat.not_lt.1 hlt))

theorem preserves_fetchOperand (mode : Addressing) : Preserves I T (fetchOperand start mode) := by
  cases mode with
  | register => exact ha.preserves_fetchRegister.bind fun r => preserves_register r
  | literal => exact ha.preserves_fetch

/-- **Every operation but a branch preserves the invariant.** -/
theorem preserves_perform {op : Operation} (hop : ∀ c, op ≠ .branch c) :
    Preserves I T (perform start op) := by
  cases op with
  | nop => exact preserves_pure _
  | halt => exact preserves_modify fun _ => ha.halted
  | load =>
    exact ha.preserves_fetchRegister.bind fun _ => ha.preserves_fetch.bind fun _ =>
      (ha.readData _).bind fun _ => ha.setRegister _ _
  | store =>
    exact ha.preserves_fetchRegister.bind fun _ => ha.preserves_fetch.bind fun _ =>
      (preserves_register _).bind fun _ => ha.writeData _ _
  | compute f mode =>
    exact ha.preserves_fetchRegister.bind fun _ => (ha.preserves_fetchOperand _).bind fun _ =>
      (ha.preserves_fetchOperand _).bind fun _ => ha.setRegister _ _
  | move mode =>
    exact ha.preserves_fetchRegister.bind fun _ => (ha.preserves_fetchOperand _).bind fun _ =>
      ha.setRegister _ _
  | complement mode =>
    exact ha.preserves_fetchRegister.bind fun _ => (ha.preserves_fetchOperand _).bind fun _ =>
      ha.setRegister _ _
  | compare mode =>
    exact (ha.preserves_fetchOperand _).bind fun a => (ha.preserves_fetchOperand _).bind fun b =>
      preserves_modify fun _ => ha.flags (a - b) (a < b)
  | branch c => exact absurd rfl (hop c)
  | printRegister =>
    exact ha.preserves_fetchRegister.bind fun _ => (preserves_register _).bind fun _ => ha.print _
  | printMemory =>
    exact ha.preserves_fetch.bind fun _ => (ha.readData _).bind fun _ => ha.print _
  | inputRegister =>
    exact ha.preserves_fetchRegister.bind fun _ => ha.readInput.bind fun _ => ha.setRegister _ _
  | inputMemory =>
    exact ha.preserves_fetch.bind fun _ => ha.readInput.bind fun _ => ha.writeData _ _

end Advancing

/-! ### Instructions -/

/-- A branch that is taken goes to the byte that it takes off the code; one that is not taken passes
over that byte, even if the code ends in front of it. -/
theorem run_perform_branch (c : Condition) (m : Machine) : (perform start (.branch c)).run m =
    if c.holds m.difference m.borrow then
      match fetch.run m with
      | .ok b m' => .ok () { m' with pc := b.toNat }
      | .error t m' => .error t m'
    else .ok () (m.advance 1) := by
  simp only [perform, EStateM.run_bind, EStateM.run_get]
  split
  · simp only [EStateM.run_bind]
    cases fetch.run m <;> rfl
  · rfl

/-- `I` holds between instructions, and `J` while one takes its operands: from `I` to `J` it takes
the opcode, and it goes back to `I` by a branch or as it is. -/
structure Cycle (I J : Machine → Prop) (T : Trap → Prop) : Prop extends Advancing J T where
  enter {m} : I m → m.pc < m.codeSize → J (m.advance 1)
  leave {m} : J m → I m
  taken {m} (target : UInt8) : J m → I { m with pc := target.toNat }
  skipped {m} : J m → I (m.advance 1)
  behind {m} : I m → m.codeSize ≤ m.pc → T (.fault (.readPastMemory m.pc))
  invalidOpcode {b : UInt8} (pc : Nat) : Opcode.ofByte? b = none →
    T (.fault (.invalidOpcode b.toNat pc))

namespace Cycle

variable (hc : Cycle I J T) {op : Operation} {m m' : Machine} {t : Trap}

include hc

theorem perform_ok (hm : J m) (h : (perform start op).run m = .ok () m') : I m' := by
  by_cases hb : ∃ c, op = .branch c
  · obtain ⟨c, rfl⟩ := hb
    rw [run_perform_branch] at h
    split at h
    · cases hr : fetch.run m with
      | ok b m₁ =>
        rw [hr] at h
        cases h
        exact hc.taken b (hc.preserves_fetch.ok hm hr)
      | error t m₁ =>
        rw [hr] at h
        cases h
    · cases h
      exact hc.skipped hm
  · exact hc.leave ((hc.preserves_perform fun c heq => hb ⟨c, heq⟩).ok hm h)

theorem perform_error (hm : J m) (h : (perform start op).run m = .error t m') : I m' ∧ T t := by
  have hpair : J m' ∧ T t := by
    by_cases hb : ∃ c, op = .branch c
    · obtain ⟨c, rfl⟩ := hb
      rw [run_perform_branch] at h
      split at h
      · cases hr : fetch.run m with
        | ok b m₁ =>
          rw [hr] at h
          cases h
        | error t m₁ =>
          rw [hr] at h
          cases h
          exact hc.preserves_fetch.error hm hr
      · cases h
    · exact (hc.preserves_perform fun c heq => hb ⟨c, heq⟩).error hm h
  exact ⟨hc.leave hpair.1, hpair.2⟩

/-- **The invariant holds behind an instruction that succeeds**, which then counts as a step. -/
theorem step_ok {o : Opcode} (hm : I m) (h : m.step = .ok o m') :
    ∃ m₁, I m₁ ∧ m' = { m₁ with steps := m₁.steps + 1 } := by
  cases hahead : m.ahead with
  | nil =>
    rw [Machine.step_end hahead] at h
    cases h
  | cons b bs =>
    cases hop : Opcode.ofByte? b with
    | none =>
      rw [Machine.step_of_no_opcode hahead hop] at h
      cases h
    | some op =>
      have henter := hc.enter hm (Machine.pc_lt_of_ahead hahead)
      rw [Machine.step_of_opcode hahead hop] at h
      cases hr : (perform m.pc op.operation).run (m.advance 1) with
      | ok v m₁ =>
        rw [hr] at h
        cases h
        exact ⟨m₁, hc.perform_ok henter hr, rfl⟩
      | error t m₁ =>
        rw [hr] at h
        cases h

/-- **The invariant holds behind an instruction that fails**, and its failure is in `T`. -/
theorem step_error (hm : I m) (h : m.step = .error t m') : I m' ∧ T t := by
  cases hahead : m.ahead with
  | nil =>
    rw [Machine.step_end hahead] at h
    cases h
    exact ⟨hm, hc.behind hm (Machine.codeSize_le_of_ahead hahead)⟩
  | cons b bs =>
    have henter := hc.enter hm (Machine.pc_lt_of_ahead hahead)
    cases hop : Opcode.ofByte? b with
    | none =>
      rw [Machine.step_of_no_opcode hahead hop] at h
      cases h
      exact ⟨hc.leave henter, hc.invalidOpcode _ hop⟩
    | some op =>
      rw [Machine.step_of_opcode hahead hop] at h
      cases hr : (perform m.pc op.operation).run (m.advance 1) with
      | ok v m₁ =>
        rw [hr] at h
        cases h
      | error t' m₁ =>
        rw [hr] at h
        cases h
        exact hc.perform_error henter hr

end Cycle

end Exec

end Asm256
