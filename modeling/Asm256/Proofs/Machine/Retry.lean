/-
Instructions that read a number.

Reading passes over the lines that are rejected, and nothing else comes of them:
* `Machine.AtInput` — the instruction at the pc is `INPUT`, with a register or a byte of data to
  store at;
* `Machine.AtInput.step_eq` — what it does with what is read;
* `input_skips_rejected_lines` — the first line that is not rejected decides on the step: it is the
  numeral of a byte, which is stored, or it is too long.
-/
import Asm256.Proofs.Machine.Frame
import Asm256.Proofs.Machine.Lines

namespace Asm256

open LineStream (Reaches IsNumeral Rejected readByte)

namespace Machine

variable {m : Machine} {op : Opcode} {put : UInt8 → Machine}

/-- The instruction at the pc reads a number into a register that there is, or into a byte of data
that there is.  Behind the instruction, `put v` has the number `v` there. -/
inductive AtInput (m : Machine) : Opcode → (UInt8 → Machine) → Prop
  | register {b : UInt8} {r : Register} {rest : List UInt8}
      (h : m.ahead = Opcode.inputRegister.toByte :: b :: rest) (hr : Asm256.register? b = some r) :
      AtInput m .inputRegister fun v =>
        { m.advance 2 with registers := m.registers.set r v r.isLt }
  | memory {offset : UInt8} {rest : List UInt8}
      (h : m.ahead = Opcode.inputMemory.toByte :: offset :: rest)
      (hlt : m.codeSize + offset.toNat < memorySize) :
      AtInput m .inputMemory fun v =>
        { m.advance 2 with memory := m.memory.set (m.codeSize + offset.toNat) v hlt }

/-- **A number that is read is stored**, and a step that reads none has moved the pc only, and taken
the input. -/
theorem AtInput.step_eq (h : m.AtInput op put) : m.step =
    match (readByte m.input).1 with
    | .ok v => .ok op { put v with input := (readByte m.input).2, steps := m.steps + 1 }
    | .error t => .error t { m.advance 2 with input := (readByte m.input).2 } := by
  have hread := Exec.run_readInput (m.advance 2)
  have hinput : (m.advance 2).input = m.input := rfl
  rw [hinput] at hread
  cases h with
  | @register b r rest h hr =>
    have hc : Opcode.inputRegister.operation.command? [b] = some (.inputRegister r) := by
      simp [Opcode.operation, Operation.command?, hr]
    have hahead : m.ahead = Opcode.inputRegister.toByte :: ([b] ++ rest) := h
    rw [Machine.step_eq hahead hc]
    show (m.advance 2).perform _ _ = _
    rw [Machine.perform, Command.perform, EStateM.run_bind, hread]
    cases (readByte m.input).1 <;> rfl
  | @memory offset rest h hlt =>
    have hahead : m.ahead = Opcode.inputMemory.toByte :: ([offset] ++ rest) := h
    rw [Machine.step_eq hahead rfl]
    show (m.advance 2).perform _ _ = _
    rw [Machine.perform, Command.perform, EStateM.run_bind, hread]
    cases (readByte m.input).1 with
    | ok v =>
      have hwrite := Exec.run_writeData_natCast
        { m.advance 2 with input := (readByte m.input).2 } offset.toNat v
      have hlt' : (m.advance 2).codeSize + offset.toNat < memorySize := hlt
      simp only [dif_pos hlt'] at hwrite
      simp only [hwrite]
      rfl
    | error t => rfl

end Machine

variable {m : Machine} {op : Opcode} {put : UInt8 → Machine}

/-- **`INPUT` passes over the lines that are rejected**, and has no other effect by them.  The first
line that is not rejected decides: if it is the numeral of a byte, that byte is stored and the text
behind the line is left; if there is no such line, all of the input is taken and that is the
failure.  A numeral of more digits than are converted is not passed over, but ends the step. -/
theorem input_skips_rejected_lines (h : m.AtInput op put) :
    (∀ line rest digits, Reaches m.input line rest → IsNumeral line digits →
      digits.length ≤ Decimal.maxDigits → Decimal.value digits ≤ 255 →
      m.step = .ok op
        { put (.ofNat (Decimal.value digits)) with input := rest, steps := m.steps + 1 }) ∧
    ((∀ line rest, Reaches m.input line rest → Rejected line) →
      m.step = .error (.fault .inputExhausted) { m.advance 2 with input := [] }) ∧
    (∀ line rest digits, Reaches m.input line rest → IsNumeral line digits →
      Decimal.maxDigits < digits.length →
      m.step = .error (.tooLong ⟨digits.length⟩) { m.advance 2 with input := rest }) ∧
    ((∃ line rest digits, Reaches m.input line rest ∧ IsNumeral line digits ∧
        digits.length ≤ Decimal.maxDigits ∧ Decimal.value digits ≤ 255) ∨
      (∀ line rest, Reaches m.input line rest → Rejected line) ∨
      ∃ line rest digits, Reaches m.input line rest ∧ IsNumeral line digits ∧
        Decimal.maxDigits < digits.length) := by
  refine ⟨fun line rest digits hreach hd hlen hv => ?_, fun hrejected => ?_,
    fun line rest digits hreach hd hlong => ?_, ?_⟩
  · have hbyte := LineStream.byte?_of_isNumeral hd
    rw [if_neg (Nat.not_lt.2 hlen), if_pos (Nat.lt_succ_of_le hv)] at hbyte
    rw [h.step_eq, hreach.readByte_of_ok hbyte]
  · rw [h.step_eq, LineStream.readByte_of_rejected m.input hrejected]
  · have hbyte := LineStream.byte?_of_isNumeral hd
    rw [if_pos hlong] at hbyte
    rw [h.step_eq, hreach.readByte_of_error hbyte]
  · by_cases hrejected : ∀ line rest, Reaches m.input line rest → Rejected line
    · exact .inr (.inl hrejected)
    · obtain ⟨line, rest, hreach, hline⟩ :
          ∃ line rest, Reaches m.input line rest ∧ ¬ Rejected line := by
        simpa only [not_forall, exists_prop] using hrejected
      -- a line that is not rejected is a numeral, of a byte or too long
      obtain ⟨digits, hd, hdigits⟩ : ∃ digits, IsNumeral line digits ∧
          ¬ (digits.length ≤ Decimal.maxDigits ∧ 255 < Decimal.value digits) := by
        simpa only [Rejected, not_forall, exists_prop] using hline
      by_cases hlong : Decimal.maxDigits < digits.length
      · exact .inr (.inr ⟨line, rest, digits, hreach, hd, hlong⟩)
      · exact .inl ⟨line, rest, digits, hreach, hd, by omega, by omega⟩

/-- A word and a number that is no byte are passed over, and 7 is stored; a numeral of 4301 digits is
not passed over. -/
theorem input_skips_rejected_lines_seven : ∃ m₁ m₂,
    Machine.load (0x1e :: 2 :: List.replicate 254 0) (List.replicate 13 0) 2
      "x\n300\n +007\r\n8".toList = .ok m₁ ∧
    m₁.step = .ok .inputRegister { m₁ with
      pc := 2, steps := 1, registers := m₁.registers.set 2 7, input := ['8'] } ∧
    Machine.load (0x1e :: 2 :: List.replicate 254 0) (List.replicate 13 0) 2
      (List.replicate 4301 '9' ++ ['\n', '7']) = .ok m₂ ∧
    m₂.step = .error (.tooLong ⟨4301⟩) { m₂ with pc := 2, input := ['7'] } := by
  have hm : (0x1e :: 2 :: List.replicate 254 (0 : UInt8)).length = memorySize := by decide +kernel
  have hr : (List.replicate 13 (0 : UInt8)).length = registerCount := by decide
  have hload : ∀ input, ∃ m, Machine.load (0x1e :: 2 :: List.replicate 254 0)
      (List.replicate 13 0) 2 input = .ok m ∧ m.ahead = [0x1e, 2] ∧ m.pc = 0 ∧ m.steps = 0 ∧
      m.input = input := by
    intro input
    rw [Machine.load, dif_pos hm, dif_pos hr, dif_pos (by decide)]
    exact ⟨_, rfl, rfl, rfl, rfl, rfl⟩
  obtain ⟨m₁, hload₁, hahead₁, hpc₁, hsteps₁, hinput₁⟩ := hload "x\n300\n +007\r\n8".toList
  obtain ⟨m₂, hload₂, hahead₂, hpc₂, hsteps₂, hinput₂⟩ :=
    hload (List.replicate 4301 '9' ++ ['\n', '7'])
  obtain ⟨hread, -⟩ := input_skips_rejected_lines (.register hahead₁ (r := 2) rfl)
  obtain ⟨-, -, hlong, -⟩ := input_skips_rejected_lines (.register hahead₂ (r := 2) rfl)
  refine ⟨m₁, m₂, hload₁, ?_, hload₂, ?_⟩
  · have hline : Reaches " +007\r\n8".toList " +007\r".toList ['8'] :=
      .here (by decide : '\n' ∉ " +007\r".toList)
    have hnumber : Reaches "300\n +007\r\n8".toList " +007\r".toList ['8'] :=
      .skip (by decide : '\n' ∉ "300".toList) (LineStream.byte?_eq_none_iff.1 rfl) hline
    have hword : Reaches m₁.input " +007\r".toList ['8'] := by
      rw [hinput₁]
      exact .skip (by decide : '\n' ∉ ['x']) (LineStream.byte?_eq_none_iff.1 rfl) hnumber
    have hseven : IsNumeral " +007\r".toList ['0', '0', '7'] :=
      LineStream.isNumeral_iff.2 ⟨.inr (by decide +kernel), by decide, by simp; decide⟩
    rw [hread _ _ _ hword hseven (by decide) (by decide), Machine.advance, hpc₁, hsteps₁]
    rfl
  · have hnine : ∀ c ∈ List.replicate 4301 '9', Decimal.isDigit c := fun c hc => by
      rw [List.eq_of_mem_replicate hc]
      decide
    have hn : '\n' ∉ List.replicate 4301 '9' := fun hc => absurd (hnine _ hc) (by decide)
    have hne : List.replicate 4301 '9' ≠ [] := List.ne_nil_of_length_pos (by
      rw [List.length_replicate]
      decide)
    have hdigits := IsNumeral.of_digits hne hnine
    have hreach : Reaches m₂.input (List.replicate 4301 '9') ['7'] := by
      rw [hinput₂]
      exact .here hn
    rw [hlong _ _ _ hreach hdigits (by rw [List.length_replicate]; decide), List.length_replicate,
      Machine.advance, hpc₂]

end Asm256
