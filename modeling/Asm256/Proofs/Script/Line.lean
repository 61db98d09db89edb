/-
Scripts: programs as lists of logical lines.

A line is made of label definitions and an instruction, if any.  Scripts leave
out how a program is written; they say what it is made of:
* `Script.WellFormed` — the labels are names, each of one line, and all that are used are defined;
  the instructions are in the table, their operands fit, and all of them fit in memory;
* `Script.Spelled` — the items that a script is written by, without the gaps;
* `Script.Layout` — what a script is assembled to.
-/
import Asm256.Assembly
import Asm256.Instruction.Table
import Asm256.Proofs.Source.Tokens

namespace Asm256

/-- A mnemonic with its operands, wherever they are written. -/
structure Instruction where
  mnemonic : Mnemonic
  operands : List Operand
  deriving DecidableEq, Repr

namespace Instruction

/-- The kinds of the operands. -/
def kinds (i : Instruction) : List OperandKind := i.operands.map Operand.kind

/-- The bytes of code for an instruction. -/
def size (i : Instruction) : Nat := 1 + i.operands.length

/-- The words of an instruction: operands have commas between them. -/
def words (i : Instruction) : List Word :=
  .mnemonic i.mnemonic :: (i.operands.map Word.operand).intersperse .comma

end Instruction

/-- The definitions of labels in front of an instruction, if there is one. -/
structure Line where
  labels : List String
  instruction : Option Instruction
  deriving DecidableEq, Repr

namespace Line

/-- The bytes of code for a line. -/
def size (l : Line) : Nat := (l.instruction.map Instruction.size).getD 0

/-- The items of a line. -/
def items (l : Line) : List Item :=
  l.labels.map Item.definition ++ (l.instruction.toList.flatMap Instruction.words).map Item.token

end Line

/-- The lines of a program. -/
abbrev Script := List Line

namespace Script

/-- The names of the labels that are defined. -/
def names (p : Script) : List String := p.flatMap Line.labels

/-- The instructions of the lines. -/
def instructions (p : Script) : List Instruction := p.filterMap Line.instruction

/-- The bytes of code for all lines. -/
def size (p : Script) : Nat := (p.map Line.size).sum

/-- The labels with their addresses, when `n` bytes of code are in front of the first line. -/
def addressesFrom (n : Nat) : Script → List (String × Nat)
  | [] => []
  | l :: p => l.labels.map (fun name => (name, n)) ++ addressesFrom (n + l.size) p

/-- The labels with their addresses: the bytes of code for the lines in front of the definition. -/
def addresses (p : Script) : List (String × Nat) := addressesFrom 0 p

/-- A script that can be assembled. -/
structure WellFormed (p : Script) : Prop where
  nodup : p.names.Nodup
  labelName : ∀ name ∈ p.names, Item.LabelName name
  signature : ∀ i ∈ p.instructions, ∃ op, (i.mnemonic, i.kinds, op) ∈ SignatureTree.table
  writable : ∀ i ∈ p.instructions, ∀ o ∈ i.operands, o.Writable
  defined : ∀ i ∈ p.instructions, ∀ name, .label name ∈ i.operands → name ∈ p.names
  size_le : p.size ≤ memorySize

/-- The items that a script is written by.  A delimiter ends a line, but not always the last one. -/
inductive Spelled : Script → List Item → Prop
  | nil : Spelled [] []
  | last (l : Line) : Spelled [l] l.items
  | line (l : Line) {d : Word} {p : Script} {is : List Item} (hd : d.isDelimiter)
      (h : Spelled p is) : Spelled (l :: p) (l.items ++ .token d :: is)

end Script

/-- The byte of an operand: its number, or the address of its label, modulo 256. -/
def Operand.codeByte (addresses : List (String × Nat)) : Operand → UInt8
  | .register n | .memory n | .literal n => Byte.wrap n
  | .label name => Byte.wrap ((addresses.lookup name).getD 0 : Nat)

/-- The bytes of an instruction: the opcode of its signature, then its operands. -/
def Instruction.Encoded (addresses : List (String × Nat)) (i : Instruction) (bytes : List UInt8) :
    Prop :=
  ∃ op : Opcode, (i.mnemonic, i.kinds, op) ∈ SignatureTree.table ∧
    bytes = op.toByte :: i.operands.map (Operand.codeByte addresses)

/-- The instruction of a statement. -/
def Statement.instruction (s : Statement) : Instruction :=
  ⟨s.mnemonic.value, s.operands.map Spelled.value⟩

/-- **What a script is assembled to**: its instructions follow each other from the start of the
memory, which is zero behind them, and labels stand for the bytes in front of their definitions. -/
structure Script.Layout (p : Script) (a : Assembly) : Prop where
  statements : a.statements.map Statement.instruction = p.instructions
  labels : a.labels.map (fun l => (l.name, l.address)) =
    p.addresses.map fun e => (e.1, (e.2 : Int))
  codeSize : a.image.codeSize = p.size
  memory : ∃ codes, List.Forall₂ (Instruction.Encoded p.addresses) p.instructions codes ∧
    a.image.memory.toList = codes.flatten ++ List.replicate (memorySize - p.size) 0

end Asm256
