/-
Signature trees in memory.

A tree has a node for each mnemonic, and behind a node one for every kind that goes
on from it, in the order in which they were made.  An addition makes the nodes on
its way before it looks at the end of it.  Freezing closes the nodes, those behind
a node before the node itself, and a closed node takes no more nodes behind it.

To freeze a tree and to list its forms, one call is made inside another for each
kind on the way, and there is room for so many of them only.  The forms are not
listed if there is too little; a tree that is being frozen stays open then, but for
the nodes that have been closed.
-/
import Asm256.Instruction.SignatureTree

namespace Asm256

/-- The nodes behind a node.  Each has the kind that leads to it, its opcode, if the kinds up to there
are a signature, whether it is closed, and the nodes behind it. -/
inductive Branches
  | nil
  | cons (kind : OperandKind) (opcode : Option Opcode) (closed : Bool) (behind others : Branches)
  deriving DecidableEq, Repr

/-- A node. -/
structure Node where
  opcode : Option Opcode := none
  closed : Bool := false
  branches : Branches := .nil
  deriving DecidableEq, Repr

/-- There is no room for a call inside the calls that are going on. -/
inductive NoRoom
  | noRoom
  deriving DecidableEq, Repr

namespace Branches

/-- The node that a kind leads to. -/
def get? : Branches → OperandKind → Option Node
  | nil, _ => none
  | cons k op closed behind others, l => if k = l then some ⟨op, closed, behind⟩ else others.get? l

/-- The node that a kind leads to is put in its place, or behind the others. -/
def put (l : OperandKind) (n : Node) : Branches → Branches
  | nil => cons l n.opcode n.closed n.branches nil
  | cons k op closed behind others =>
      if k = l then cons l n.opcode n.closed n.branches others
      else cons k op closed behind (others.put l n)

/-- Closes nodes, if there is room for the calls, and says whether there is. -/
def close : (room : Nat) → Branches → Bool × Branches
  | _, nil => (true, nil)
  | 0, cons k op closed behind others => (false, cons k op closed behind others)
  | room + 1, cons k op closed behind others =>
      match behind.close room with
      | (false, behind) => (false, cons k op closed behind others)
      | (true, behind) =>
          let (finished, others) := others.close (room + 1)
          (finished, cons k op true behind others)

/-- The bindings of nodes, if there is room for the calls. -/
def forms : (room : Nat) → Branches → Except NoRoom (List Form)
  | _, nil => .ok []
  | 0, cons .. => .error .noRoom
  | room + 1, cons k op _ behind others => do
      let fs ← behind.forms room
      let own := (op.map fun o => (o, [])).toList
      return Trie.forms.below k (own ++ fs) ++ (← others.forms (room + 1))

end Branches

namespace Node

/-- The node that a kind leads to, or a new one. -/
def child (n : Node) (k : OperandKind) : Node := (n.branches.get? k).getD {}

/-- The opcode of the node that kinds lead to. -/
def find? (n : Node) : List OperandKind → Option Opcode
  | [] => n.opcode
  | k :: ks => (n.branches.get? k).bind fun c => c.find? ks

/-- Why a node gets no opcode: it has one, or a node on the way is closed. -/
inductive Obstacle
  | taken
  | closed
  deriving DecidableEq, Repr

/-- Gives an opcode to the node that kinds lead to, and makes the nodes on the way. -/
def add (n : Node) : List OperandKind → Opcode → Option Obstacle × Node
  | [], op => if n.opcode.isSome then (some .taken, n) else (none, { n with opcode := some op })
  | k :: ks, op =>
      if n.closed then (some .closed, n)
      else
        let (obstacle, c) := (n.child k).add ks op
        (obstacle, { n with branches := n.branches.put k c })

/-- Closes a node and those behind it. -/
def close (room : Nat) (n : Node) : Bool × Node :=
  let (finished, branches) := n.branches.close room
  (finished, { n with closed := n.closed || finished, branches })

/-- The bindings of a node. -/
def forms (room : Nat) (n : Node) : Except NoRoom (List Form) := do
  return (n.opcode.map fun o => (o, [])).toList ++ (← n.branches.forms room)

end Node

/-- A signature tree in memory. -/
structure NodeTree where
  roots : List (Mnemonic × Node) := []
  frozen : Bool := false
  deriving DecidableEq, Repr

namespace NodeTree

/-- Why a signature is not added. -/
inductive AddError
  | refused (e : SignatureTree.AddError)
  /-- A node on the way is closed, though the tree is not frozen. -/
  | closed
  deriving DecidableEq, Repr

/-- The tree without nodes. -/
def empty : NodeTree := {}

/-- The node of a mnemonic, or a new one. -/
def root (t : NodeTree) (m : Mnemonic) : Node := (t.roots.lookup m).getD {}

/-- The opcode registered for a mnemonic with exactly these operand kinds. -/
def find? (t : NodeTree) (m : Mnemonic) (ks : List OperandKind) : Option Opcode := (t.root m).find? ks

/-- An addition, with its error and the tree that it leaves. -/
def add (t : NodeTree) (m : Mnemonic) (ks : List OperandKind) (op : Opcode) :
    Option AddError × NodeTree :=
  if t.frozen then (some (.refused .frozen), t)
  else
    let (obstacle, n) := (t.root m).add ks op
    let error := obstacle.map fun
      | .taken => AddError.refused (.duplicate m ks)
      | .closed => .closed
    (error, { t with roots := SignatureTree.putRoot m n t.roots })

/-- Closes the nodes of the mnemonics one after the other. -/
def closeRoots (room : Nat) : List (Mnemonic × Node) → Bool × List (Mnemonic × Node)
  | [] => (true, [])
  | (m, n) :: ps =>
      match n.close room with
      | (false, n) => (false, (m, n) :: ps)
      | (true, n) =>
          let (finished, ps) := closeRoots room ps
          (finished, (m, n) :: ps)

/-- Closes the tree to additions, with the error and the tree that this leaves. -/
def freeze (room : Nat) (t : NodeTree) : Option NoRoom × NodeTree :=
  match closeRoots room t.roots with
  | (false, roots) => (some .noRoom, { t with roots })
  | (true, roots) => (none, { roots, frozen := true })

/-- The mnemonics with a node, by first addition. -/
def mnemonics (t : NodeTree) : List Mnemonic := t.roots.map Prod.fst

/-- The forms of a mnemonic, sorted. -/
def forms (room : Nat) (t : NodeTree) (m : Mnemonic) : Except NoRoom (List Form) :=
  match t.roots.lookup m with
  | none => .ok []
  | some n => (n.forms room).map (·.mergeSort Form.le)

/-- The mnemonic that an opcode is written with: the first that has it among its forms. -/
def mnemonicOf? (room : Nat) (t : NodeTree) (op : Opcode) : Except NoRoom (Option Mnemonic) :=
  t.mnemonics.findM? fun m => do return (← t.forms room m).any fun f => f.1 = op

/-- The operand kinds that an opcode takes: those of the first form with it, among the forms of all
mnemonics. -/
def kindsOf? (room : Nat) (t : NodeTree) (op : Opcode) : Except NoRoom (Option (List OperandKind)) :=
  t.mnemonics.findSomeM? fun m => do
    return ((← t.forms room m).find? fun f => f.1 = op).map Prod.snd

end NodeTree

end Asm256
