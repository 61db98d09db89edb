/-
Listings: code written as instructions again.

The code is swept from its start.  A byte that is no opcode, or whose operands
reach past the end of the code, is listed as a byte of data, and the sweep goes
on with the byte behind it.  The addresses that branches name get labels made
from the address, which are written in front of the entries found there.
-/
import Asm256.Byte.Numeral
import Asm256.Instruction.SignatureTree
import Asm256.Text.Padding

namespace Asm256

/-- A part of the code: an instruction, or a byte that is none. -/
inductive Entry
  | instruction (address : Nat) (opcode : Opcode) (mnemonic : Mnemonic)
      (operands : List (OperandKind × UInt8))
  | data (address : Nat) (byte : UInt8)
  deriving DecidableEq, Repr

/-- Why code has no listing: it is longer than its memory, or has an opcode without a signature. -/
inductive ListingError
  | outOfRange
  | unregistered (opcode : Opcode)
  deriving DecidableEq, Repr

/-- The letters for a number in base 26, the highest first, in front of `tail`. -/
def letters (n : Nat) (tail : List Char) : List Char :=
  let tail := Char.ofNat ('a'.toNat + n % 26) :: tail
  if n < 26 then tail else letters (n / 26) tail

/-- The label made from an address. -/
def labelName (address : Nat) : String := "L_" ++ String.ofList (letters address [])

/-- An operand of a kind as it is written in source text. -/
def OperandKind.written (kind : OperandKind) (value : UInt8) : String :=
  match kind with
  | .register => s!"R{value.toNat}"
  | .memory => toString value.toNat
  | .label => labelName value.toNat
  | .literal => s!"#{value.toNat}"

namespace Entry

/-- Where the entry starts. -/
def address : Entry → Nat
  | instruction a _ _ _ | data a _ => a

/-- The opcode of an instruction. -/
def opcode? : Entry → Option Opcode
  | instruction _ op _ _ => some op
  | data _ _ => none

/-- The operands of an instruction. -/
def operands : Entry → List (OperandKind × UInt8)
  | instruction _ _ _ os => os
  | data _ _ => []

/-- The bytes of the entry. -/
def raw : Entry → List UInt8
  | instruction _ op _ os => op.toByte :: os.map Prod.snd
  | data _ byte => [byte]

/-- The number of bytes of the entry. -/
def size (e : Entry) : Nat := e.raw.length

/-- The entry as it is written in source text. -/
def text : Entry → String
  | instruction _ _ m [] => m.name
  | instruction _ _ m os => m.name ++ " " ++ ", ".intercalate (os.map fun o => o.1.written o.2)
  | data _ byte => ".byte " ++ Byte.hex byte.toNat

/-- The addresses that an instruction may branch to. -/
def targets (e : Entry) : List Nat :=
  (e.operands.filter fun o => o.1 = .label).map fun o => o.2.toNat

end Entry

namespace Listing

/-- The entries of the code from an address on, where `rest` is the memory from there. -/
def sweep (tree : SignatureTree) (codeSize : Nat) (address : Nat) (rest : List UInt8) :
    Except ListingError (List Entry) :=
  if address < codeSize then
    match rest with
    | [] => .error .outOfRange
    | byte :: rest =>
        match Opcode.ofByte? byte with
        | none => do return .data address byte :: (← sweep tree codeSize (address + 1) rest)
        | some op =>
            match tree.registration? op with
            | none => .error (.unregistered op)
            | some (m, kinds) =>
                if address + kinds.length < codeSize then
                  let values := rest.take kinds.length
                  if values.length < kinds.length then .error .outOfRange
                  else do
                    let entry := .instruction address op m (kinds.zip values)
                    return entry ::
                      (← sweep tree codeSize (address + 1 + kinds.length) (rest.drop kinds.length))
                else do return .data address byte :: (← sweep tree codeSize (address + 1) rest)
  else .ok []
termination_by codeSize - address

/-- The entries of the first `codeSize` bytes of a memory. -/
def entries (tree : SignatureTree) (memory : List UInt8) (codeSize : Nat) :
    Except ListingError (List Entry) :=
  sweep tree codeSize 0 memory

/-- The addresses that the instructions may branch to, ascending. -/
def targets (es : List Entry) : List Nat :=
  (es.flatMap Entry.targets).mergeSort.eraseDups

/-- The line of an entry: address, bytes and text. -/
def line (e : Entry) : String :=
  let raw := " ".intercalate (e.raw.map fun b => Byte.bareHex b.toNat)
  s!"  {Text.padLeft 3 (toString e.address)}: {Text.padRight 12 raw} {e.text}"

/-- The lines of a listing. -/
def lines (es : List Entry) : List String :=
  let targets := es.flatMap Entry.targets
  es.flatMap fun e =>
    if targets.contains e.address then [labelName e.address ++ ":", line e] else [line e]

end Listing

end Asm256
