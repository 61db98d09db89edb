/-
Signature trees: which operand kinds each mnemonic takes, and for which opcode.

A tree is a finite map from a mnemonic and a list of operand kinds to an
opcode, grown by `SignatureTree.add` until `SignatureTree.freeze`.  Mnemonics
keep the order of their first registration; the forms of one mnemonic are
listed by the byte of the opcode, then by the order of the kinds.
-/
import Asm256.Instruction.Mnemonic
import Asm256.Instruction.Trie

namespace Asm256

/-- An opcode with the operand kinds it is chosen for. -/
abbrev Form := Opcode × List OperandKind

namespace Form

/-- The key that forms are sorted by: the byte, then the ranks of the kinds. -/
def key (f : Form) : List Nat := f.1.toByte.toNat :: f.2.map OperandKind.rank

/-- The order in which the forms of a mnemonic are listed. -/
def le (f g : Form) : Bool := !g.key.lex f.key

end Form

/-- The registered forms of each mnemonic. -/
structure SignatureTree where
  roots : List (Mnemonic × Trie) := []
  frozen : Bool := false

namespace SignatureTree

/-- Why a signature is not added. -/
inductive AddError
  | frozen
  | duplicate (mnemonic : Mnemonic) (kinds : List OperandKind)
  deriving DecidableEq, Repr

/-- The tree without signatures. -/
def empty : SignatureTree := {}

/-- The bindings of a mnemonic. -/
def root (t : SignatureTree) (m : Mnemonic) : Trie := (t.roots.lookup m).getD .empty

/-- The opcode registered for a mnemonic with exactly these operand kinds. -/
def find? (t : SignatureTree) (m : Mnemonic) (kinds : List OperandKind) : Option Opcode :=
  (t.root m).find? kinds

/-- Rebinds a mnemonic in its place, or binds it behind all others. -/
def putRoot {α : Type} (m : Mnemonic) (r : α) : List (Mnemonic × α) → List (Mnemonic × α)
  | [] => [(m, r)]
  | p :: ps => if p.1 = m then (m, r) :: ps else p :: putRoot m r ps

/-- The tree with the signature bound to the opcode. -/
def insert (t : SignatureTree) (m : Mnemonic) (kinds : List OperandKind) (op : Opcode) : SignatureTree :=
  { t with roots := putRoot m ((t.root m).insert kinds op) t.roots }

/-- Adds a new signature to a tree that is not frozen. -/
def add (t : SignatureTree) (m : Mnemonic) (kinds : List OperandKind) (op : Opcode) :
    Except AddError SignatureTree :=
  if t.frozen then .error .frozen
  else if (t.find? m kinds).isSome then .error (.duplicate m kinds)
  else .ok (t.insert m kinds op)

/-- Closes the tree to additions. -/
def freeze (t : SignatureTree) : SignatureTree := { t with frozen := true }

/-- The mnemonics with a signature, by first registration. -/
def mnemonics (t : SignatureTree) : List Mnemonic := t.roots.map Prod.fst

/-- The forms of a mnemonic, sorted. -/
def forms (t : SignatureTree) (m : Mnemonic) : List Form := (t.root m).forms.mergeSort Form.le

/-- The first mnemonic with the opcode among its forms, and the first such form's operand kinds. -/
def registration? (t : SignatureTree) (op : Opcode) : Option (Mnemonic × List OperandKind) :=
  t.mnemonics.findSome? fun m => ((t.forms m).find? fun f => f.1 = op).map fun f => (m, f.2)

/-- The mnemonic that an opcode is written with: the first that has it among its forms. -/
def mnemonicOf? (t : SignatureTree) (op : Opcode) : Option Mnemonic :=
  t.mnemonics.find? fun m => (t.forms m).any fun f => f.1 = op

/-- The operand kinds that an opcode takes: those of the first form with it, among the forms of all
mnemonics. -/
def kindsOf? (t : SignatureTree) (op : Opcode) : Option (List OperandKind) :=
  t.mnemonics.findSome? fun m => ((t.forms m).find? fun f => f.1 = op).map Prod.snd

/-- The wording of the error. -/
def AddError.message : AddError → String
  | .frozen => "El árbol de firmas es de solo lectura"
  | .duplicate m kinds =>
      let shown := ", ".intercalate (kinds.map fun k => s!"<OperandKind.{k.name}: '{k.text}'>")
      s!"Firma duplicada para {m.name}: [{shown}]"

end SignatureTree

end Asm256
