/-
Images: programs as they lie in memory.

A statement takes one byte for its opcode and one for each operand; labels are
replaced by their addresses, and other numbers are written modulo 256
(`Statement.encode`).  The statements of an image follow each other from
address 0; the memory behind them is zero.
-/
import Asm256.Image.Writer
import Asm256.Source.Label
import Asm256.Source.Statement

namespace Asm256

/-- A memory whose first `codeSize` bytes are code. -/
structure Image where
  memory : Memory
  codeSize : Nat
  codeSize_le : codeSize ≤ memorySize

namespace Image

/-- The bytes of the code. -/
def code (i : Image) : List UInt8 := i.memory.toList.take i.codeSize

/-- The number of bytes that are not code. -/
def freeSize (i : Image) : Nat := memorySize - i.codeSize

end Image

/-- What a writer has written, as an image. -/
def Writer.image (w : Writer) : Image := ⟨w.memory, w.cursor, w.cursor_le⟩

/-- The number that an operand is encoded by: its own, or the address of the label. -/
def Operand.encode (labels : LabelTable) (o : Spelled Operand) : Except StatementError Int :=
  match o.value with
  | .register n | .memory n | .literal n => .ok n
  | .label name =>
      match labels.find? name with
      | some found => .ok found.address
      | none => .error (.undefinedLabel o.toToken)

/-- The numbers that a statement is encoded by: its opcode and its operands.  That no form of the
mnemonic fits counts before labels that are not defined, and these count from left to right. -/
def Statement.encode (tree : SignatureTree) (labels : LabelTable) (s : Statement) :
    Except StatementError (List Int) :=
  let m := s.mnemonic.value
  match tree.find? m s.kinds with
  | none => .error (.invalidSignature s.mnemonic.pos m s.kinds (tree.forms m))
  | some op =>
      match s.operands.mapM (Operand.encode labels) with
      | .error e => .error e
      | .ok values => .ok (op.toByte.toNat :: values)

/-- Why statements have no image. -/
inductive EncodeError
  | statement (e : StatementError)
  | full
  deriving DecidableEq, Repr

/-- Writes a statement. -/
def Writer.writeStatement (tree : SignatureTree) (labels : LabelTable) (w : Writer) (s : Statement) :
    Except EncodeError Writer :=
  match s.encode tree labels with
  | .error e => .error (.statement e)
  | .ok values =>
      match w.writeAll values with
      | none => .error .full
      | some w => .ok w

/-- The image of statements. -/
def Image.encode (tree : SignatureTree) (labels : LabelTable) (statements : List Statement) :
    Except EncodeError Image :=
  (statements.foldlM (Writer.writeStatement tree labels) .empty).map Writer.image

end Asm256
