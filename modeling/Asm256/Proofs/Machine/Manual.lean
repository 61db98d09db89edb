/-
The manual of the machine.

`Machine.Effect` says what each instruction does, in the words of the assembly language: a mnemonic
with its operands, which are registers, literals, bytes of data or labels.  Results are given as
numbers, and all that is not mentioned stays as it is:
* `Arithmetic.toNat_apply`, `Mnemonic.taken_iff` — the operations and the conditions of the machine
  in these words;
* `LineStream.Short.delivers_or_exhausted` — the input delivers a byte, or there is none in it;
* `Command.run_load` and the lemmas behind it — what each command comes to;
* `Machine.exists_effect`, `Machine.Effect.eq_perform` — a command has just the effect of its
  instruction.

The main result is `step_by_the_manual`.
-/
import Asm256.Proofs.Machine.Data
import Asm256.Proofs.Machine.Lines

namespace Asm256

/-! ### Results and conditions -/

/-- The number that an operation computes from two bytes. -/
def Mnemonic.result? : Mnemonic → Option (Nat → Nat → Nat)
  | add => some fun a b => (a + b) % 256
  | sub => some fun a b => (a + 256 - b) % 256
  | and => some fun a b => a &&& b
  | orr => some fun a b => a ||| b
  | eor => some fun a b => a ^^^ b
  | lsl => some fun a b => a * 2 ^ (b % 8) % 256
  | lsr => some fun a b => a / 2 ^ (b % 8)
  | _ => none

/-- A branch is taken after a comparison with the flags of the machine. -/
def Mnemonic.Taken (m : Machine) : Mnemonic → Prop
  | b => True
  | beq => m.difference = 0
  | bne => m.difference ≠ 0
  | bgt => m.difference ≠ 0 ∧ m.borrow = false
  | blt => m.borrow = true
  | _ => False

theorem toNat_difference (a b : UInt8) :
    (a - b).toNat = (a.toNat + 256 - b.toNat) % 256 := by
  have ha := a.toNat_lt
  have hb := b.toNat_lt
  rw [UInt8.toNat_sub]
  omega

theorem toNat_complement (x : UInt8) : (~~~x).toNat = 255 ^^^ x.toNat := by
  rw [← UInt8.neg_one_xor, UInt8.toNat_xor]
  rfl

theorem Arithmetic.toNat_apply (f : Arithmetic) (mode : Addressing) :
    ∃ g, (Operation.compute f mode).mnemonic.result? = some g ∧
      ∀ a b : UInt8, (f.apply a b).toNat = g a.toNat b.toNat := by
  cases f with
  | add => exact ⟨_, rfl, UInt8.toNat_add⟩
  | sub => exact ⟨_, rfl, toNat_difference⟩
  | and => exact ⟨_, rfl, UInt8.toNat_and⟩
  | or => exact ⟨_, rfl, UInt8.toNat_or⟩
  | xor => exact ⟨_, rfl, UInt8.toNat_xor⟩
  | shiftLeft =>
    refine ⟨_, rfl, fun a b => ?_⟩
    show (a <<< (b % 8)).toNat = a.toNat * 2 ^ (b.toNat % 8) % 256
    have hmod : (b % 8).toNat % 8 = b.toNat % 8 := by
      rw [UInt8.toNat_mod]
      exact Nat.mod_mod _ _
    rw [UInt8.toNat_shiftLeft, hmod, Nat.shiftLeft_eq]
  | shiftRight =>
    refine ⟨_, rfl, fun a b => ?_⟩
    show (a >>> (b % 8)).toNat = a.toNat / 2 ^ (b.toNat % 8)
    have hmod : (b % 8).toNat % 8 = b.toNat % 8 := by
      rw [UInt8.toNat_mod]
      exact Nat.mod_mod _ _
    rw [UInt8.toNat_shiftRight, hmod, Nat.shiftRight_eq_div_pow]

theorem Mnemonic.taken_iff (m : Machine) (cond : Condition) :
    (Operation.branch cond).mnemonic.Taken m ↔ cond.holds m.difference m.borrow = true := by
  cases cond <;> simp [Operation.mnemonic, Mnemonic.Taken, Condition.holds]

/-! ### What the input delivers -/

namespace LineStream

variable {text line rest : List Char} {v : UInt8}

/-- The input delivers a byte, behind lines that are rejected, and `rest` is behind the line of that
byte. -/
def Delivers (text : List Char) (v : UInt8) (rest : List Char) : Prop :=
  ∃ line digits, Reaches text line rest ∧ IsNumeral line digits ∧
    digits.length ≤ Decimal.maxDigits ∧ Decimal.value digits = v.toNat

/-- All lines of the input are rejected. -/
def Exhausted (text : List Char) : Prop :=
  ∀ line rest, Reaches text line rest → Rejected line

theorem Delivers.readByte_eq (h : Delivers text v rest) : readByte text = (.ok v, rest) := by
  obtain ⟨line, digits, hreach, hd, hlen, hv⟩ := h
  have hbyte := byte?_of_isNumeral hd
  rw [if_neg (Nat.not_lt.2 hlen), hv, if_pos v.toNat_lt, UInt8.ofNat_toNat] at hbyte
  exact hreach.readByte_of_ok hbyte

theorem Exhausted.readByte_eq (h : Exhausted text) :
    readByte text = (.error (.fault .inputExhausted), []) := readByte_of_rejected text h

theorem Reaches.isInfix (h : Reaches text line rest) : line <:+: text ∧ '\n' ∉ line := by
  induction h with
  | here hn => exact ⟨(List.prefix_append _ _).isInfix, hn⟩
  | last hn => exact ⟨List.infix_refl _, hn⟩
  | skip _ _ _ ih =>
    exact ⟨ih.1.trans ((List.suffix_cons _ _).trans (List.suffix_append _ _)).isInfix, ih.2⟩

/-- **Short lines deliver a byte, or there is none in them.** -/
theorem Short.delivers_or_exhausted (h : Short text) :
    (∃ v rest, Delivers text v rest) ∨ Exhausted text := by
  by_cases hex : Exhausted text
  · exact .inr hex
  · obtain ⟨line, rest, hreach, hline⟩ : ∃ line rest, Reaches text line rest ∧ ¬ Rejected line := by
      simpa only [Exhausted, not_forall, exists_prop] using hex
    obtain ⟨digits, hd, hdigits⟩ : ∃ digits, IsNumeral line digits ∧
        ¬ (digits.length ≤ Decimal.maxDigits ∧ 255 < Decimal.value digits) := by
      simpa only [Rejected, not_forall, exists_prop] using hline
    -- the numeral is not too long, for its digits are on the line
    have hlen : digits.length ≤ Decimal.maxDigits := by
      by_contra hlong
      have hbyte := byte?_of_isNumeral hd
      rw [if_pos (Nat.not_le.1 hlong)] at hbyte
      obtain ⟨hpart, hn⟩ := hreach.isInfix
      exact absurd (h line hpart hn) (Nat.not_le.2 (lt_countP_of_byte? hbyte))
    refine .inl ⟨.ofNat (Decimal.value digits), rest, line, digits, hreach, hd, hlen, ?_⟩
    rw [UInt8.toNat_ofNat', Nat.mod_eq_of_lt (by omega)]

end LineStream

/-! ### What commands come to -/

namespace Machine

/-- What the operand of a source has for its value. -/
def sourceValue (m : Machine) : Source → UInt8
  | .register r => m.registers.get r
  | .literal v => v

end Machine

namespace Command

variable (m : Machine) (r : Register) (offset : UInt8) (source : Source)

theorem run_load : (load r offset).perform.run m = (m.data? offset).elim
    (.error (.fault (.outOfBoundsRead offset.toNat)) m)
    fun v => .ok () { m with registers := m.registers.set r v r.isLt } := by
  rw [perform, EStateM.run_bind, Machine.run_readData_data?]
  cases m.data? offset <;> rfl

theorem run_store : (store r offset).perform.run m =
    if h : m.codeSize + offset.toNat < memorySize then
      .ok () { m with memory := m.memory.set (m.codeSize + offset.toNat) (m.registers.get r) h }
    else .error (.fault (.outOfBoundsWrite offset.toNat)) m := by
  rw [perform, EStateM.run_bind, Exec.run_register]
  exact Exec.run_writeData_natCast m offset.toNat _

theorem run_compute (f : Arithmetic) (left : Register) :
    (compute f r left source).perform.run m = .ok ()
      { m with registers :=
          m.registers.set r (f.apply (m.registers.get left) (m.sourceValue source)) r.isLt } := by
  cases source <;> rfl

theorem run_move : (move r source).perform.run m =
    .ok () { m with registers := m.registers.set r (m.sourceValue source) r.isLt } := by
  cases source <;> rfl

theorem run_complement : (complement r source).perform.run m =
    .ok () { m with registers := m.registers.set r (~~~m.sourceValue source) r.isLt } := by
  cases source <;> rfl

theorem run_compare : (compare r source).perform.run m = .ok () { m with
    difference := m.registers.get r - m.sourceValue source
    borrow := m.registers.get r < m.sourceValue source } := by
  cases source <;> rfl

theorem run_printMemory : (printMemory offset).perform.run m = (m.data? offset).elim
    (.error (.fault (.outOfBoundsRead offset.toNat)) m)
    fun v => .ok () { m with output := m.output ++ LineStream.written (toString v.toNat) } := by
  rw [perform, EStateM.run_bind, Machine.run_readData_data?]
  cases m.data? offset <;> rfl

theorem run_inputRegister : (inputRegister r).perform.run m =
    match LineStream.readByte m.input with
    | (.ok v, rest) => .ok () { m with registers := m.registers.set r v r.isLt, input := rest }
    | (.error t, rest) => .error t { m with input := rest } := by
  rw [perform, EStateM.run_bind, Exec.run_readInput]
  obtain ⟨v | t, rest⟩ := LineStream.readByte m.input <;> rfl

theorem run_inputMemory : (inputMemory offset).perform.run m =
    match LineStream.readByte m.input with
    | (.ok v, rest) =>
        if h : m.codeSize + offset.toNat < memorySize then
          .ok () { m with memory := m.memory.set (m.codeSize + offset.toNat) v h, input := rest }
        else .error (.fault (.outOfBoundsWrite offset.toNat)) { m with input := rest }
    | (.error t, rest) => .error t { m with input := rest } := by
  rw [perform, EStateM.run_bind, Exec.run_readInput]
  obtain ⟨v | t, rest⟩ := LineStream.readByte m.input
  · rfl
  · exact Exec.run_writeData_natCast { m with input := rest } offset.toNat _

end Command

/-! ### Effects -/

open LineStream (Delivers Exhausted readByte)

namespace Machine

variable {m : Machine} {op : Opcode} {b v : UInt8}

theorem input_advance (m : Machine) (k : Nat) : (m.advance k).input = m.input := rfl

/-- The machine behind an instruction of `k` bytes that has been executed. -/
def behind (m : Machine) (k : Nat) : Machine := { m with pc := m.pc + k, steps := m.steps + 1 }

/-- The operand of this kind that is given by the byte `b` has the value `v`. -/
inductive Denotes (m : Machine) : OperandKind → UInt8 → UInt8 → Prop
  | register {b : UInt8} {r : Register} (hr : register? b = some r) :
      Denotes m .register b (m.registers.get r)
  | literal (v : UInt8) : Denotes m .literal v v
  | memory {offset v : UInt8} (hv : m.data? offset = some v) : Denotes m .memory offset v

/-- **What an instruction does**: its opcode, its mnemonic and its operands, which are given by their
kinds and bytes, and what the step comes to.  All operands have their values from the machine in front
of the instruction. -/
inductive Effect (m : Machine) (op : Opcode) : Mnemonic → List (OperandKind × UInt8) →
    EStateM.Result Trap Machine Opcode → Prop
  | nop : Effect m op .nop [] (.ok op (m.behind 1))
  | halt : Effect m op .halt [] (.ok op { m.behind 1 with halted := true })
  | ldr {d offset v : UInt8} {rd : Register} (hd : register? d = some rd)
      (hv : m.Denotes .memory offset v) : Effect m op .ldr [(.register, d), (.memory, offset)]
        (.ok op { m.behind 3 with registers := m.registers.set rd v rd.isLt })
  | ldrOutside {d offset : UInt8} (h : memorySize ≤ m.codeSize + offset.toNat) :
      Effect m op .ldr [(.register, d), (.memory, offset)]
        (.error (.fault (.outOfBoundsRead offset.toNat)) (m.advance 3))
  | str {s offset v : UInt8} (hv : m.Denotes .register s v)
      (h : m.codeSize + offset.toNat < memorySize) :
      Effect m op .str [(.register, s), (.memory, offset)]
        (.ok op { m.behind 3 with memory := m.memory.set (m.codeSize + offset.toNat) v h })
  | strOutside {s offset : UInt8} (h : memorySize ≤ m.codeSize + offset.toNat) :
      Effect m op .str [(.register, s), (.memory, offset)]
        (.error (.fault (.outOfBoundsWrite offset.toNat)) (m.advance 3))
  | compute {mnemonic : Mnemonic} {k : OperandKind} {d s b x y v : UInt8} {rd : Register}
      {f : Nat → Nat → Nat} (hf : mnemonic.result? = some f) (hd : register? d = some rd)
      (hx : m.Denotes .register s x) (hy : m.Denotes k b y) (hv : v.toNat = f x.toNat y.toNat) :
      Effect m op mnemonic [(.register, d), (.register, s), (k, b)]
        (.ok op { m.behind 4 with registers := m.registers.set rd v rd.isLt })
  | mov {k : OperandKind} {d b v : UInt8} {rd : Register} (hd : register? d = some rd)
      (hv : m.Denotes k b v) : Effect m op .mov [(.register, d), (k, b)]
        (.ok op { m.behind 3 with registers := m.registers.set rd v rd.isLt })
  | mvn {k : OperandKind} {d b x v : UInt8} {rd : Register} (hd : register? d = some rd)
      (hx : m.Denotes k b x) (hv : v.toNat = 255 ^^^ x.toNat) :
      Effect m op .mvn [(.register, d), (k, b)]
        (.ok op { m.behind 3 with registers := m.registers.set rd v rd.isLt })
  | cmp {k : OperandKind} {s b x y difference : UInt8} (hx : m.Denotes .register s x)
      (hy : m.Denotes k b y) (hd : difference.toNat = (x.toNat + 256 - y.toNat) % 256) :
      Effect m op .cmp [(.register, s), (k, b)]
        (.ok op { m.behind 3 with difference := difference, borrow := x.toNat < y.toNat })
  | taken {mnemonic : Mnemonic} {target : UInt8} (h : mnemonic.Taken m) :
      Effect m op mnemonic [(.label, target)] (.ok op { m.behind 2 with pc := target.toNat })
  | passed {mnemonic : Mnemonic} {target : UInt8} (h : ¬ mnemonic.Taken m) :
      Effect m op mnemonic [(.label, target)] (.ok op (m.behind 2))
  | print {k : OperandKind} {b v : UInt8} (hv : m.Denotes k b v) : Effect m op .print [(k, b)]
      (.ok op { m.behind 2 with output := m.output ++ (toString v.toNat ++ "\n") })
  | printOutside {offset : UInt8} (h : memorySize ≤ m.codeSize + offset.toNat) :
      Effect m op .print [(.memory, offset)]
        (.error (.fault (.outOfBoundsRead offset.toNat)) (m.advance 2))
  | inputRegister {d v : UInt8} {rd : Register} {rest : List Char} (hd : register? d = some rd)
      (hv : Delivers m.input v rest) : Effect m op .input [(.register, d)]
        (.ok op { m.behind 2 with registers := m.registers.set rd v rd.isLt, input := rest })
  | inputMemory {offset v : UInt8} {rest : List Char} (hv : Delivers m.input v rest)
      (h : m.codeSize + offset.toNat < memorySize) : Effect m op .input [(.memory, offset)]
        (.ok op { m.behind 2 with
          memory := m.memory.set (m.codeSize + offset.toNat) v h, input := rest })
  | inputOutside {offset v : UInt8} {rest : List Char} (hv : Delivers m.input v rest)
      (h : memorySize ≤ m.codeSize + offset.toNat) : Effect m op .input [(.memory, offset)]
        (.error (.fault (.outOfBoundsWrite offset.toNat)) { m.advance 2 with input := rest })
  | inputExhausted {k : OperandKind} {b : UInt8} (h : Exhausted m.input) :
      Effect m op .input [(k, b)]
        (.error (.fault .inputExhausted) { m.advance 2 with input := [] })

theorem Denotes.eq_register {r : Register} {x : UInt8}
    (h : m.Denotes .register (registerByte r) x) : x = m.registers.get r := by
  cases h with
  | register hr =>
    rw [register?_registerByte] at hr
    cases hr
    rfl

theorem denotes_register (m : Machine) (r : Register) :
    m.Denotes .register (registerByte r) (m.registers.get r) := .register (register?_registerByte r)

theorem Denotes.eq_sourceValue {source : Source} {x : UInt8}
    (h : m.Denotes source.mode.kind source.byte x) : x = m.sourceValue source := by
  cases source with
  | register r => exact h.eq_register
  | literal v =>
    cases h
    rfl

theorem denotes_source (m : Machine) (source : Source) :
    m.Denotes source.mode.kind source.byte (m.sourceValue source) := by
  cases source with
  | register r => exact m.denotes_register r
  | literal v => exact .literal v

/-- A number of a register is that of no other. -/
theorem eq_of_register?_registerByte {r rd : Register} (h : register? (registerByte r) = some rd) :
    rd = r := by
  rw [register?_registerByte] at h
  exact (Option.some.inj h).symm

/-! ### Commands have the effects of their instructions -/

/-- **Every command has an effect**, if there are no numerals in the input that are too long. -/
theorem exists_effect (m : Machine) (op : Opcode) (c : Command UInt8)
    (hshort : c.operation.mnemonic = .input → LineStream.Short m.input) :
    ∃ r, m.Effect op c.operation.mnemonic (c.operation.kinds.zip c.bytes) r := by
  cases c with
  | nop => exact ⟨_, .nop⟩
  | halt => exact ⟨_, .halt⟩
  | load target offset =>
    by_cases hlt : m.codeSize + offset.toNat < memorySize
    · exact ⟨_, .ldr (register?_registerByte target) (.memory (Vector.getElem?_eq_getElem hlt))⟩
    · exact ⟨_, .ldrOutside (Nat.le_of_not_lt hlt)⟩
  | store source offset =>
    by_cases hlt : m.codeSize + offset.toNat < memorySize
    · exact ⟨_, .str (m.denotes_register source) hlt⟩
    · exact ⟨_, .strOutside (Nat.le_of_not_lt hlt)⟩
  | compute f target left right =>
    obtain ⟨g, hg, happly⟩ := Arithmetic.toNat_apply f right.mode
    exact ⟨_, .compute hg (register?_registerByte target) (m.denotes_register left)
      (m.denotes_source right) (happly _ _)⟩
  | move target source =>
    exact ⟨_, .mov (register?_registerByte target) (m.denotes_source source)⟩
  | complement target source =>
    exact ⟨_, .mvn (register?_registerByte target) (m.denotes_source source) (toNat_complement _)⟩
  | compare left right =>
    exact ⟨_, .cmp (m.denotes_register left) (m.denotes_source right) (toNat_difference _ _)⟩
  | branch cond target =>
    by_cases htaken : (Operation.branch cond).mnemonic.Taken m
    · exact ⟨_, .taken htaken⟩
    · exact ⟨_, .passed htaken⟩
  | printRegister source => exact ⟨_, .print (m.denotes_register source)⟩
  | printMemory offset =>
    by_cases hlt : m.codeSize + offset.toNat < memorySize
    · exact ⟨_, .print (.memory (Vector.getElem?_eq_getElem hlt))⟩
    · exact ⟨_, .printOutside (Nat.le_of_not_lt hlt)⟩
  | inputRegister target =>
    obtain ⟨v, rest, hv⟩ | hnone := (hshort rfl).delivers_or_exhausted
    · exact ⟨_, .inputRegister (register?_registerByte target) hv⟩
    · exact ⟨_, .inputExhausted hnone⟩
  | inputMemory offset =>
    obtain ⟨v, rest, hv⟩ | hnone := (hshort rfl).delivers_or_exhausted
    · by_cases hlt : m.codeSize + offset.toNat < memorySize
      · exact ⟨_, .inputMemory hv hlt⟩
      · exact ⟨_, .inputOutside hv (Nat.le_of_not_lt hlt)⟩
    · exact ⟨_, .inputExhausted hnone⟩

/-- **A command does what the effect of its instruction says.** -/
theorem Effect.eq_perform {c : Command UInt8} {r : EStateM.Result Trap Machine Opcode}
    (h : m.Effect op c.operation.mnemonic (c.operation.kinds.zip c.bytes) r) :
    (m.advance (1 + c.bytes.length)).perform op c = r := by
  cases c with
  | nop | halt =>
    cases h
    rfl
  | load target offset =>
    show (m.advance 3).perform op (.load target offset) = r
    rw [perform, Command.run_load, data?_advance]
    cases h with
    | ldr hd hv =>
      obtain rfl := eq_of_register?_registerByte hd
      cases hv with
      | memory hv =>
        rw [hv]
        rfl
    | ldrOutside hle =>
      rw [data?, Vector.getElem?_eq_none hle]
      rfl
  | store source offset =>
    show (m.advance 3).perform op (.store source offset) = r
    rw [perform, Command.run_store]
    cases h with
    | str hv hlt =>
      have hlt' : (m.advance 3).codeSize + offset.toNat < memorySize := hlt
      rw [dif_pos hlt', hv.eq_register]
      rfl
    | strOutside hle =>
      have hle' : memorySize ≤ (m.advance 3).codeSize + offset.toNat := hle
      rw [dif_neg (Nat.not_lt.2 hle')]
  | compute f target left right =>
    -- the mnemonic and the kind have to be variables for the cases of `h`
    replace h : m.Effect op _ [(.register, registerByte target), (.register, registerByte left),
      (right.mode.kind, right.byte)] r := h
    show (m.advance 4).perform op (.compute f target left right) = r
    rw [perform, Command.run_compute]
    generalize hmn : (Command.compute f target left right).operation.mnemonic = mnemonic at h
    generalize hk : right.mode.kind = k at h
    cases h with
    | @compute _ _ _ _ _ x y v _ g hg hd hx hy hv =>
      subst hmn hk
      obtain rfl := eq_of_register?_registerByte hd
      obtain ⟨g', hg', happly⟩ := Arithmetic.toNat_apply f right.mode
      obtain rfl : g' = g := Option.some.inj (hg'.symm.trans hg)
      obtain rfl : v = f.apply x y := UInt8.toNat_inj.1 (hv.trans (happly x y).symm)
      rw [hx.eq_register, hy.eq_sourceValue]
      rfl
  | move target source =>
    replace h : m.Effect op .mov [(.register, registerByte target),
      (source.mode.kind, source.byte)] r := h
    show (m.advance 3).perform op (.move target source) = r
    rw [perform, Command.run_move]
    generalize hk : source.mode.kind = k at h
    cases h with
    | mov hd hv =>
      subst hk
      obtain rfl := eq_of_register?_registerByte hd
      rw [hv.eq_sourceValue]
      rfl
  | complement target source =>
    replace h : m.Effect op .mvn [(.register, registerByte target),
      (source.mode.kind, source.byte)] r := h
    show (m.advance 3).perform op (.complement target source) = r
    rw [perform, Command.run_complement]
    generalize hk : source.mode.kind = k at h
    cases h with
    | @mvn _ _ _ x v _ hd hx hv =>
      subst hk
      obtain rfl := eq_of_register?_registerByte hd
      obtain rfl : v = ~~~x := UInt8.toNat_inj.1 (hv.trans (toNat_complement x).symm)
      rw [hx.eq_sourceValue]
      rfl
  | compare left right =>
    replace h : m.Effect op .cmp [(.register, registerByte left),
      (right.mode.kind, right.byte)] r := h
    show (m.advance 3).perform op (.compare left right) = r
    rw [perform, Command.run_compare]
    generalize hk : right.mode.kind = k at h
    cases h with
    | @cmp _ _ _ x y d hx hy hd =>
      subst hk
      obtain rfl : d = x - y := UInt8.toNat_inj.1 (hd.trans (toNat_difference x y).symm)
      rw [hx.eq_register, hy.eq_sourceValue]
      rfl
  | branch cond target =>
    replace h : m.Effect op _ [(.label, target)] r := h
    show (m.advance 2).perform op (.branch cond target) = r
    rw [perform, Command.run_branch, difference_advance, borrow_advance]
    generalize hmn : (Command.branch cond target).operation.mnemonic = mnemonic at h
    cases h with
    | taken htaken =>
      subst hmn
      rw [if_pos ((Mnemonic.taken_iff m cond).1 htaken)]
      rfl
    | passed hnot =>
      subst hmn
      rw [if_neg (mt (Mnemonic.taken_iff m cond).2 hnot)]
      rfl
    | print hv => cases hv
    | inputExhausted => cases cond <;> cases hmn
  | printRegister source =>
    show (m.advance 2).perform op (.printRegister source) = r
    cases h with
    | print hv =>
      rw [hv.eq_register]
      rfl
  | printMemory offset =>
    show (m.advance 2).perform op (.printMemory offset) = r
    rw [perform, Command.run_printMemory, data?_advance]
    cases h with
    | print hv =>
      cases hv with
      | memory hv =>
        rw [hv]
        rfl
    | printOutside hle =>
      rw [data?, Vector.getElem?_eq_none hle]
      rfl
  | inputRegister target =>
    show (m.advance 2).perform op (.inputRegister target) = r
    rw [perform, Command.run_inputRegister, input_advance]
    cases h with
    | inputRegister hd hv =>
      obtain rfl := eq_of_register?_registerByte hd
      rw [hv.readByte_eq]
      rfl
    | inputExhausted hnone => rw [hnone.readByte_eq]
  | inputMemory offset =>
    show (m.advance 2).perform op (.inputMemory offset) = r
    rw [perform, Command.run_inputMemory, input_advance]
    cases h with
    | inputMemory hv hlt =>
      have hlt' : (m.advance 2).codeSize + offset.toNat < memorySize := hlt
      simp only [hv.readByte_eq, dif_pos hlt']
      rfl
    | inputOutside hv hle =>
      have hle' : memorySize ≤ (m.advance 2).codeSize + offset.toNat := hle
      simp only [hv.readByte_eq, dif_neg (Nat.not_lt.2 hle')]
    | inputExhausted hnone => rw [hnone.readByte_eq]

end Machine

/-! ### Steps -/

/-- **A step does what the manual says.**  Where a signature of the language has its opcode and all of
its operands in the code, with numbers of registers for its registers, a step comes to the effect of
that instruction on these operands, and to no other: whatever is in the registers, which may
coincide, in the memory and in the flags, and wherever the instruction lies. -/
theorem step_by_the_manual (m : Machine) {mnemonic : Mnemonic} {kinds : List OperandKind}
    {op : Opcode} {args rest : List UInt8} (hrow : (mnemonic, kinds, op) ∈ SignatureTree.table)
    (h : m.ahead = op.toByte :: (args ++ rest)) (hlen : args.length = kinds.length)
    (hreg : ∀ o ∈ kinds.zip args, o.1 = .register → o.2.toNat < registerCount)
    (hshort : mnemonic = .input → LineStream.Short m.input)
    (r : EStateM.Result Trap Machine Opcode) :
    m.step = r ↔ m.Effect op mnemonic (kinds.zip args) r := by
  obtain ⟨rfl, rfl⟩ := Operation.mem_table_iff.1 hrow
  have hnone : obstacle? op.operation.kinds (args ++ rest) = none := by
    have hfind : (op.operation.kinds.zip args).find? (fun o => o.1.Rejects o.2) = none :=
      List.find?_eq_none.2 fun o ho hrejects => by
        obtain ⟨hk, hle⟩ := of_decide_eq_true hrejects
        exact Nat.not_lt.2 hle (hreg o ho hk)
    have hmap := map_byte?_obstacle? hlen rest
    rwa [hfind, Option.map_none, Option.map_eq_none_iff] at hmap
  obtain ⟨args', rest', c, happend, hlen', hc⟩ := Operation.exists_command_of_obstacle? hnone
  obtain ⟨rfl, rfl⟩ := List.append_inj happend (hlen.trans hlen'.symm)
  have hstep := Machine.step_eq h hc
  obtain ⟨hop, rfl⟩ := Operation.command?_eq_some_iff.1 hc
  rw [hop] at hshort ⊢
  rw [hstep]
  constructor
  · rintro rfl
    obtain ⟨r, hr⟩ := m.exists_effect op c hshort
    rwa [hr.eq_perform]
  · exact Machine.Effect.eq_perform

/-- A register is shifted by itself into itself, and the amount counts modulo 8. -/
theorem step_by_the_manual_shift : ∃ m,
    Machine.load (0x18 :: 1 :: 1 :: 1 :: List.replicate 252 0) (0 :: 9 :: List.replicate 11 7) 4
      [] = .ok m ∧
    m.step = .ok .lslRegister
      { m with registers := m.registers.set 1 18, pc := m.pc + 4, steps := m.steps + 1 } := by
  obtain ⟨m, hload, hm⟩ := exists_ok_of_any (p := fun m : Machine =>
    decide (m.ahead = [0x18, 1, 1, 1]) && decide (m.registers.get 1 = 9)) (x := Machine.load
      (0x18 :: 1 :: 1 :: 1 :: List.replicate 252 0) (0 :: 9 :: List.replicate 11 7) 4 [])
    (by decide +kernel)
  simp only [Bool.and_eq_true, decide_eq_true_eq] at hm
  obtain ⟨hahead, hnine⟩ := hm
  have hrow : (Mnemonic.lsl, [.register, .register, .register], Opcode.lslRegister) ∈
      SignatureTree.table := by decide
  have hd : register? 1 = some (1 : Register) := rfl
  have hone : m.Denotes .register 1 9 := hnine ▸ .register hd
  have heffect : m.Effect .lslRegister .lsl [(.register, 1), (.register, 1), (.register, 1)]
      (.ok .lslRegister
        { m with registers := m.registers.set 1 18, pc := m.pc + 4, steps := m.steps + 1 }) :=
    .compute rfl hd hone hone rfl
  have hsplit : m.ahead = Opcode.lslRegister.toByte :: ([1, 1, 1] ++ []) := hahead
  exact ⟨m, hload, (step_by_the_manual m hrow hsplit rfl (by decide) (fun h => by cases h) _).2
    heffect⟩

end Asm256
