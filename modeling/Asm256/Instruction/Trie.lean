/-
Tries over operand kinds: finite maps from lists of kinds to opcodes.

A node holds the opcode of the path that leads to it and one branch for each
kind.  The laws of the map are
* `find?_insert_self`, `find?_insert_of_ne` — what `find?` answers after `insert`;
* `mem_forms` — `forms` lists exactly the bindings.
-/
import Asm256.Instruction.OperandKind
import Asm256.Instruction.Opcode

namespace Asm256

/-- A finite map from lists of operand kinds to opcodes. -/
inductive Trie
  | empty
  | node (opcode : Option Opcode) (register memory label literal : Trie)
  deriving Repr

namespace Trie

/-- The opcode bound to the empty list. -/
def opcode : Trie → Option Opcode
  | empty => none
  | node op _ _ _ _ => op

/-- The map from what follows the kind `k`. -/
def child : Trie → OperandKind → Trie
  | empty, _ => empty
  | node _ r _ _ _, .register => r
  | node _ _ m _ _, .memory => m
  | node _ _ _ a _, .label => a
  | node _ _ _ _ l, .literal => l

/-- The map with `op` bound to the empty list. -/
def setOpcode (t : Trie) (op : Opcode) : Trie :=
  node (some op) (t.child .register) (t.child .memory) (t.child .label) (t.child .literal)

/-- The map with `c` as what follows the kind `k`. -/
def setChild (t : Trie) (k : OperandKind) (c : Trie) : Trie :=
  match k with
  | .register => node t.opcode c (t.child .memory) (t.child .label) (t.child .literal)
  | .memory => node t.opcode (t.child .register) c (t.child .label) (t.child .literal)
  | .label => node t.opcode (t.child .register) (t.child .memory) c (t.child .literal)
  | .literal => node t.opcode (t.child .register) (t.child .memory) (t.child .label) c

/-- The map with `op` bound to the list of kinds. -/
def insert (t : Trie) : List OperandKind → Opcode → Trie
  | [], op => t.setOpcode op
  | k :: ks, op => t.setChild k ((t.child k).insert ks op)

/-- The opcode bound to exactly this list of kinds. -/
def find? (t : Trie) : List OperandKind → Option Opcode
  | [] => t.opcode
  | k :: ks => (t.child k).find? ks

/-- All bindings, by the order of kinds, a list before its extensions. -/
def forms : Trie → List (Opcode × List OperandKind)
  | empty => []
  | node op r m a l =>
      (op.map fun o => (o, [])).toList ++ below .register r.forms ++ below .memory m.forms
        ++ below .label a.forms ++ below .literal l.forms
where
  /-- The bindings of a branch, with its kind in front of each list. -/
  below (k : OperandKind) (fs : List (Opcode × List OperandKind)) : List (Opcode × List OperandKind) :=
    fs.map fun f => (f.1, k :: f.2)

/-! ### The laws of the map -/

@[simp] theorem opcode_setOpcode (t : Trie) (op : Opcode) : (t.setOpcode op).opcode = some op := rfl

@[simp] theorem child_setOpcode (t : Trie) (op : Opcode) (k : OperandKind) :
    (t.setOpcode op).child k = t.child k := by
  cases k <;> rfl

@[simp] theorem opcode_setChild (t : Trie) (k : OperandKind) (c : Trie) :
    (t.setChild k c).opcode = t.opcode := by
  cases k <;> rfl

theorem child_setChild (t : Trie) (k l : OperandKind) (c : Trie) :
    (t.setChild k c).child l = if l = k then c else t.child l := by
  cases k <;> cases l <;> rfl

@[simp] theorem find?_empty (ks : List OperandKind) : empty.find? ks = none := by
  induction ks with
  | nil => rfl
  | cons k ks ih => exact ih

/-- A list of kinds is bound to what was inserted for it last. -/
@[simp] theorem find?_insert_self (t : Trie) (ks : List OperandKind) (op : Opcode) :
    (t.insert ks op).find? ks = some op := by
  induction ks generalizing t with
  | nil => rfl
  | cons k ks ih => simp [insert, find?, child_setChild, ih]

/-- An insertion leaves every other list alone, prefixes and extensions included. -/
theorem find?_insert_of_ne (t : Trie) {ks ls : List OperandKind} (op : Opcode) (h : ls ≠ ks) :
    (t.insert ks op).find? ls = t.find? ls := by
  induction ks generalizing t ls with
  | nil =>
      cases ls with
      | nil => exact absurd rfl h
      | cons l ls => simp [insert, find?]
  | cons k ks ih =>
      cases ls with
      | nil => simp [insert, find?]
      | cons l ls =>
          simp only [insert, find?, child_setChild]
          split
          · next hl => subst hl; exact ih _ (fun e => h (by rw [e]))
          · rfl

/-- The listed bindings are those that `find?` answers. -/
theorem mem_forms {t : Trie} {op : Opcode} {ks : List OperandKind} :
    (op, ks) ∈ t.forms ↔ t.find? ks = some op := by
  induction t generalizing ks with
  | empty => simp [forms]
  | node o r m a l ihr ihm iha ihl =>
      cases ks with
      | nil => simp [forms, forms.below, find?, opcode]
      | cons k ks =>
          cases k <;> simp [forms, forms.below, find?, child, ihr, ihm, iha, ihl]

end Trie

end Asm256
