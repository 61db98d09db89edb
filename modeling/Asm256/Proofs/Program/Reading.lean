/-
Statements as commands.

The mnemonic and the operands of a statement say what to do, with labels by
their names (`Statement.command?`).  The machine finds the same command in the
code of the statement, with labels by their bytes:
* `Operation.mem_table_iff` — a signature of the table is the mnemonic and the kinds of operands of
  the operation that its opcode stands for;
* `Statement.Encodable.command` — a statement with an encoding is a command, and its bytes are
  those of that command.
-/
import Asm256.Proofs.Assembled
import Asm256.Proofs.Instruction.TreeLookup
import Asm256.Proofs.Machine.Command

namespace Asm256

/-! ### Reading a statement -/

namespace Operand

/-- The register that an operand names. -/
def register? : Operand → Option Register
  | .register n => (registerNumbered n).toOption
  | _ => none

/-- The offset that a memory operand gives. -/
def offset? : Operand → Option UInt8
  | .memory n => if Byte.Fits n then some (Byte.wrap n) else none
  | _ => none

/-- The register or the value that an operand gives. -/
def source? : Operand → Option Source
  | .register n => (register? (.register n)).map .register
  | .literal n => if Byte.Fits n then some (.literal (Byte.wrap n)) else none
  | _ => none

/-- The label that an operand names. -/
def target? : Operand → Option String
  | .label name => some name
  | _ => none

end Operand

namespace Mnemonic

/-- What the mnemonic of an operation on two bytes computes. -/
def arithmetic? : Mnemonic → Option Arithmetic
  | add => some .add
  | sub => some .sub
  | and => some .and
  | orr => some .or
  | eor => some .xor
  | lsl => some .shiftLeft
  | lsr => some .shiftRight
  | _ => none

/-- When the branch of a mnemonic is taken. -/
def condition? : Mnemonic → Option Condition
  | b => some .always
  | beq => some .equal
  | bne => some .notEqual
  | bgt => some .greater
  | blt => some .less
  | _ => none

/-- What a mnemonic asks for with these operands. -/
def command? : Mnemonic → List Operand → Option (Command String)
  | nop, [] => some .nop
  | halt, [] => some .halt
  | ldr, [t, o] => do return .load (← t.register?) (← o.offset?)
  | str, [s, o] => do return .store (← s.register?) (← o.offset?)
  | mov, [t, s] => do return .move (← t.register?) (← s.source?)
  | mvn, [t, s] => do return .complement (← t.register?) (← s.source?)
  | cmp, [left, right] => do return .compare (← left.register?) (← right.source?)
  | print, [.memory n] => do return .printMemory (← Operand.offset? (.memory n))
  | print, [s] => do return .printRegister (← s.register?)
  | input, [.memory n] => do return .inputMemory (← Operand.offset? (.memory n))
  | input, [t] => do return .inputRegister (← t.register?)
  | m, [l] => do return .branch (← m.condition?) (← l.target?)
  | m, [t, left, right] => do
      return .compute (← m.arithmetic?) (← t.register?) (← left.register?) (← right.source?)
  | _, _ => none

end Mnemonic

/-- What a statement asks for. -/
def Statement.command? (s : Statement) : Option (Command String) :=
  s.mnemonic.value.command? (s.operands.map Spelled.value)

/-- The byte that a label stands for in code. -/
def LabelTable.byte (labels : LabelTable) (name : String) : UInt8 :=
  Byte.wrap ((Operand.label name).resolve labels)

/-! ### Signatures and operations -/

/-- The kind of operand for each way to give one. -/
def Addressing.kind : Addressing → OperandKind
  | register => .register
  | literal => .literal

namespace Operation

/-- The mnemonic that an operation is written with. -/
def mnemonic : Operation → Mnemonic
  | nop => .nop
  | halt => .halt
  | load => .ldr
  | store => .str
  | compute .add _ => .add
  | compute .sub _ => .sub
  | compute .and _ => .and
  | compute .or _ => .orr
  | compute .xor _ => .eor
  | compute .shiftLeft _ => .lsl
  | compute .shiftRight _ => .lsr
  | move _ => .mov
  | complement _ => .mvn
  | compare _ => .cmp
  | branch .always => .b
  | branch .equal => .beq
  | branch .notEqual => .bne
  | branch .greater => .bgt
  | branch .less => .blt
  | printRegister | printMemory => .print
  | inputRegister | inputMemory => .input

open OperandKind in
/-- The kinds of the operands that an operation takes. -/
def kinds : Operation → List OperandKind
  | nop | halt => []
  | load | store => [register, memory]
  | compute _ mode => [register, register, mode.kind]
  | move mode | complement mode | compare mode => [register, mode.kind]
  | branch _ => [label]
  | printRegister | inputRegister => [register]
  | printMemory | inputMemory => [memory]

/-- **A signature of the table is that of the operation its opcode stands for.** -/
theorem mem_table_iff {m : Mnemonic} {ks : List OperandKind} {op : Opcode} :
    (m, ks, op) ∈ SignatureTree.table ↔ m = op.operation.mnemonic ∧ ks = op.operation.kinds := by
  constructor
  · intro h
    -- the table is finite, and each of its rows is as stated
    have hrows : ∀ row ∈ SignatureTree.table,
        row.1 = row.2.2.operation.mnemonic ∧ row.2.1 = row.2.2.operation.kinds := by decide
    exact hrows _ h
  · rintro ⟨rfl, rfl⟩
    cases op <;> decide

end Operation

/-! ### The bytes of operands -/

namespace Operand

variable {o : Operand} {mode : Addressing}

/-- The byte of an operand in code. -/
def byte (labels : LabelTable) (o : Operand) : UInt8 := Byte.wrap (o.resolve labels)

theorem register_byte (labels : LabelTable) (hk : o.kind = .register) (hw : o.Writable) :
    ∃ r, o.register? = some r ∧ Asm256.register? (o.byte labels) = some r := by
  cases o with
  | register n =>
    have hlt : 0 ≤ n ∧ n < registerCount := hw
    have hcount : registerCount = 13 := rfl
    -- the number is a byte, so the byte of the operand is that number
    have hb := Byte.toNat_wrap_of_fits (show Byte.Fits n from ⟨hlt.1, by omega⟩)
    have hn : registerNumbered n = .ok ⟨n.toNat, by omega⟩ := dif_pos hlt
    refine ⟨⟨n.toNat, by omega⟩, ?_, ?_⟩
    · rw [register?, hn]
      rfl
    show Asm256.register? (Byte.wrap n) = _
    rw [Asm256.register?, dif_pos (by omega)]
    congr 2
    omega
  | _ => cases hk

theorem offset_byte (labels : LabelTable) (hk : o.kind = .memory) (hw : o.Writable) :
    o.offset? = some (o.byte labels) := by
  cases o with
  | memory n =>
    have hlt : 0 ≤ n ∧ n < 256 := hw
    exact if_pos ⟨hlt.1, by omega⟩
  | _ => cases hk

theorem source_byte (labels : LabelTable) (hk : o.kind = mode.kind) (hw : o.Writable) :
    ∃ s, o.source? = some s ∧ Source.ofByte? mode (o.byte labels) = some s := by
  cases mode with
  | register =>
    obtain ⟨r, hr, hb⟩ := register_byte labels hk hw
    refine ⟨.register r, ?_, by simp [Source.ofByte?, hb]⟩
    cases o with
    | register n => simp [source?, hr]
    | _ => cases hk
  | literal =>
    cases o with
    | literal n =>
      have hlt : 0 ≤ n ∧ n < 256 := hw
      exact ⟨_, if_pos ⟨hlt.1, by omega⟩, rfl⟩
    | _ => cases hk

theorem target_byte (labels : LabelTable) (hk : o.kind = .label) :
    ∃ name, o.target? = some name ∧ o.byte labels = labels.byte name := by
  cases o with
  | label name => exact ⟨name, rfl, rfl⟩
  | _ => cases hk

end Operand

/-! ### The code of a statement is that of its command -/

namespace Operation

variable {labels : LabelTable} {os : List Operand} {op : Operation}

theorem kinds_eq_one {k : OperandKind} (h : os.map Operand.kind = [k]) :
    ∃ o, os = [o] ∧ o.kind = k := by
  obtain ⟨o, os, rfl, ho, h⟩ := List.map_eq_cons_iff.1 h
  obtain rfl := List.map_eq_nil_iff.1 h
  exact ⟨o, rfl, ho⟩

theorem kinds_eq_two {k₁ k₂ : OperandKind} (h : os.map Operand.kind = [k₁, k₂]) :
    ∃ o₁ o₂, os = [o₁, o₂] ∧ o₁.kind = k₁ ∧ o₂.kind = k₂ := by
  obtain ⟨o₁, os, rfl, h₁, h⟩ := List.map_eq_cons_iff.1 h
  obtain ⟨o₂, rfl, h₂⟩ := kinds_eq_one h
  exact ⟨o₁, o₂, rfl, h₁, h₂⟩

theorem kinds_eq_three {k₁ k₂ k₃ : OperandKind} (h : os.map Operand.kind = [k₁, k₂, k₃]) :
    ∃ o₁ o₂ o₃, os = [o₁, o₂, o₃] ∧ o₁.kind = k₁ ∧ o₂.kind = k₂ ∧ o₃.kind = k₃ := by
  obtain ⟨o₁, os, rfl, h₁, h⟩ := List.map_eq_cons_iff.1 h
  obtain ⟨o₂, o₃, rfl, h₂, h₃⟩ := kinds_eq_two h
  exact ⟨o₁, o₂, o₃, rfl, h₁, h₂, h₃⟩

/-- **Operands of the right kinds make a command**, and so do their bytes. -/
theorem exists_command (labels : LabelTable) (hk : os.map Operand.kind = op.kinds)
    (hw : ∀ o ∈ os, o.Writable) : ∃ c, op.mnemonic.command? os = some c ∧
      op.command? (os.map (Operand.byte labels)) = some (c.map labels.byte) := by
  have hreg : ∀ o ∈ os, o.kind = .register → ∃ r, o.register? = some r ∧
      register? (o.byte labels) = some r := fun o ho hk => Operand.register_byte labels hk (hw o ho)
  have hoffset : ∀ o ∈ os, o.kind = .memory → o.offset? = some (o.byte labels) :=
    fun o ho hk => Operand.offset_byte labels hk (hw o ho)
  have hsource : ∀ o ∈ os, ∀ mode : Addressing, o.kind = mode.kind → ∃ s, o.source? = some s ∧
      Source.ofByte? mode (o.byte labels) = some s :=
    fun o ho mode hk => Operand.source_byte labels hk (hw o ho)
  cases op with
  | nop =>
    obtain rfl := List.map_eq_nil_iff.1 hk
    exact ⟨_, rfl, rfl⟩
  | halt =>
    obtain rfl := List.map_eq_nil_iff.1 hk
    exact ⟨_, rfl, rfl⟩
  | load =>
    obtain ⟨t, o, rfl, ht, ho⟩ := kinds_eq_two hk
    obtain ⟨r, hr, hrb⟩ := hreg t (by simp) ht
    have hob := hoffset o (by simp) ho
    exact ⟨.load r (o.byte labels), by simp [mnemonic, Mnemonic.command?, hr, hob],
      by simp [command?, hrb, Command.map]⟩
  | store =>
    obtain ⟨s, o, rfl, hs, ho⟩ := kinds_eq_two hk
    obtain ⟨r, hr, hrb⟩ := hreg s (by simp) hs
    have hob := hoffset o (by simp) ho
    exact ⟨.store r (o.byte labels), by simp [mnemonic, Mnemonic.command?, hr, hob],
      by simp [command?, hrb, Command.map]⟩
  | compute f mode =>
    obtain ⟨t, left, right, rfl, ht, hl, hr⟩ := kinds_eq_three hk
    obtain ⟨r, hr, hrb⟩ := hreg t (by simp) ht
    obtain ⟨l, hl, hlb⟩ := hreg left (by simp) hl
    obtain ⟨s, hs, hsb⟩ := hsource right (by simp) mode (by assumption)
    refine ⟨.compute f r l s, ?_, by simp [command?, hrb, hlb, hsb, Command.map]⟩
    cases f <;> simp [mnemonic, Mnemonic.command?, Mnemonic.arithmetic?, hr, hl, hs]
  | move mode =>
    obtain ⟨t, s, rfl, ht, hs⟩ := kinds_eq_two hk
    obtain ⟨r, hr, hrb⟩ := hreg t (by simp) ht
    obtain ⟨s, hs, hsb⟩ := hsource s (by simp) mode hs
    exact ⟨.move r s, by simp [mnemonic, Mnemonic.command?, hr, hs],
      by simp [command?, hrb, hsb, Command.map]⟩
  | complement mode =>
    obtain ⟨t, s, rfl, ht, hs⟩ := kinds_eq_two hk
    obtain ⟨r, hr, hrb⟩ := hreg t (by simp) ht
    obtain ⟨s, hs, hsb⟩ := hsource s (by simp) mode hs
    exact ⟨.complement r s, by simp [mnemonic, Mnemonic.command?, hr, hs],
      by simp [command?, hrb, hsb, Command.map]⟩
  | compare mode =>
    obtain ⟨left, right, rfl, hl, hr⟩ := kinds_eq_two hk
    obtain ⟨l, hl, hlb⟩ := hreg left (by simp) hl
    obtain ⟨s, hs, hsb⟩ := hsource right (by simp) mode hr
    exact ⟨.compare l s, by simp [mnemonic, Mnemonic.command?, hl, hs],
      by simp [command?, hlb, hsb, Command.map]⟩
  | branch cond =>
    obtain ⟨l, rfl, hl⟩ := kinds_eq_one hk
    obtain ⟨name, hname, hb⟩ := Operand.target_byte labels hl
    refine ⟨.branch cond name, ?_, by simp [command?, hb, Command.map]⟩
    cases cond <;> simp [mnemonic, Mnemonic.command?, Mnemonic.condition?, hname]
  | printRegister =>
    obtain ⟨s, rfl, hs⟩ := kinds_eq_one hk
    obtain ⟨r, hr, hrb⟩ := hreg s (by simp) hs
    refine ⟨.printRegister r, ?_, by simp [command?, hrb, Command.map]⟩
    cases s <;> simp_all [mnemonic, Mnemonic.command?, Operand.kind]
  | printMemory =>
    obtain ⟨o, rfl, ho⟩ := kinds_eq_one hk
    have hob := hoffset o (by simp) ho
    refine ⟨.printMemory (o.byte labels), ?_, by simp [command?, Command.map]⟩
    cases o <;> simp_all [mnemonic, Mnemonic.command?, Operand.kind]
  | inputRegister =>
    obtain ⟨t, rfl, ht⟩ := kinds_eq_one hk
    obtain ⟨r, hr, hrb⟩ := hreg t (by simp) ht
    refine ⟨.inputRegister r, ?_, by simp [command?, hrb, Command.map]⟩
    cases t <;> simp_all [mnemonic, Mnemonic.command?, Operand.kind]
  | inputMemory =>
    obtain ⟨o, rfl, ho⟩ := kinds_eq_one hk
    have hob := hoffset o (by simp) ho
    refine ⟨.inputMemory (o.byte labels), ?_, by simp [command?, Command.map]⟩
    cases o <;> simp_all [mnemonic, Mnemonic.command?, Operand.kind]

end Operation

namespace Statement

variable {labels : LabelTable} {s : Statement}

/-- The bytes of the operands of a statement. -/
def operandBytes (labels : LabelTable) (s : Statement) : List UInt8 :=
  s.operands.map fun o => o.value.byte labels

theorem length_operandBytes : (s.operandBytes labels).length + 1 = s.size := by
  rw [operandBytes, List.length_map, size, Nat.add_comm]

/-- **A statement with an encoding is a command**, and its code is its opcode and the bytes of the
command. -/
theorem Encodable.command (h : s.Encodable .standard labels)
    (hw : ∀ o ∈ s.operands, o.value.Writable) :
    ∃ op : Opcode, ∃ c, SignatureTree.standard.find? s.mnemonic.value s.kinds = some op ∧
      s.code .standard labels = op.toByte :: s.operandBytes labels ∧ s.command? = some c ∧
      op.operation.command? (s.operandBytes labels) = some (c.map labels.byte) := by
  obtain ⟨op, hop⟩ := Option.isSome_iff_exists.1 h.1
  obtain ⟨hm, hk⟩ := Operation.mem_table_iff.1 (SignatureTree.find?_standard_iff.1 hop)
  have hkinds : (s.operands.map Spelled.value).map Operand.kind = op.operation.kinds := by
    rw [← hk, List.map_map]
    rfl
  obtain ⟨c, hc, hb⟩ := Operation.exists_command labels hkinds (by simpa using hw)
  refine ⟨op, c, hop, Encodable.code_eq hop, ?_, ?_⟩
  · rw [command?, hm, hc]
  · rw [← hb, List.map_map]
    rfl

end Statement

end Asm256
