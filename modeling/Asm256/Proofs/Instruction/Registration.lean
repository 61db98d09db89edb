/-
From an opcode back to its signature.

A tree answers for an opcode with a signature that the opcode is registered
under (`SignatureTree.find?_of_registration?`), and it answers for every opcode
that is registered at all (`SignatureTree.isSome_registration?`).  So it answers
with the only signature there is, if no opcode is registered twice:
* `SignatureTree.Unambiguous` — every opcode is registered under one signature at most;
* `SignatureTree.Unambiguous.insert` — a tree stays unambiguous as long as each insertion brings a
  new opcode;
* `SignatureTree.registration?_standard` — the tree of the language answers for every opcode.
-/
import Asm256.Proofs.Instruction.TreeLookup
import Asm256.Proofs.Program.Reading

namespace Asm256.SignatureTree

variable {t : SignatureTree} {m : Mnemonic} {ks : List OperandKind} {op : Opcode}

/-- The forms of a mnemonic are its bindings. -/
theorem mem_forms : (op, ks) ∈ t.forms m ↔ t.find? m ks = some op := by
  rw [forms, List.mem_mergeSort, Trie.mem_forms]
  rfl

/-- A mnemonic with a signature is one of the mnemonics of the tree. -/
theorem mem_mnemonics (h : t.find? m ks = some op) : m ∈ t.mnemonics := by
  by_contra hm
  have hlookup : t.roots.lookup m = none := by
    refine List.lookup_eq_none_iff.2 fun p hp => bne_iff_ne.2 ?_
    rintro rfl
    exact hm (List.mem_map_of_mem hp)
  rw [find?, root, hlookup, Option.getD_none, Trie.find?_empty] at h
  cases h

/-- What a tree answers for an opcode is registered. -/
theorem find?_of_registration? (h : t.registration? op = some (m, ks)) :
    t.find? m ks = some op := by
  obtain ⟨n, -, hn⟩ := List.exists_of_findSome?_eq_some h
  obtain ⟨⟨op', ks'⟩, hf, heq⟩ := Option.map_eq_some_iff.1 hn
  obtain ⟨rfl, rfl⟩ := Prod.mk.inj heq
  obtain rfl : op' = op := by simpa using List.find?_some hf
  exact mem_forms.1 (List.mem_of_find?_eq_some hf)

/-- A tree answers for every opcode that is registered. -/
theorem isSome_registration? (h : t.find? m ks = some op) : (t.registration? op).isSome := by
  rw [registration?, List.findSome?_isSome_iff]
  refine ⟨m, mem_mnemonics h, ?_⟩
  rw [Option.isSome_map, List.find?_isSome]
  exact ⟨(op, ks), mem_forms.2 h, by simp⟩

/-! ### Trees that register no opcode twice -/

/-- Every opcode is registered under one signature at most. -/
def Unambiguous (t : SignatureTree) : Prop :=
  ∀ {m n : Mnemonic} {ks ls : List OperandKind} {op : Opcode},
    t.find? m ks = some op → t.find? n ls = some op → m = n ∧ ks = ls

/-- An unambiguous tree answers for an opcode with its signature. -/
theorem Unambiguous.registration?_eq (hu : t.Unambiguous) (h : t.find? m ks = some op) :
    t.registration? op = some (m, ks) := by
  obtain ⟨⟨n, ls⟩, hr⟩ := Option.isSome_iff_exists.1 (isSome_registration? h)
  obtain ⟨rfl, rfl⟩ := hu h (find?_of_registration? hr)
  exact hr

theorem unambiguous_empty : empty.Unambiguous := by
  intro m n ks ls op h
  have hnone : empty.find? m ks = none := Trie.find?_empty ks
  rw [hnone] at h
  cases h

/-- The insertion of a new opcode keeps a tree unambiguous. -/
theorem Unambiguous.insert (hu : t.Unambiguous) (hnew : ∀ m ks, t.find? m ks ≠ some op) :
    (t.insert m ks op).Unambiguous := by
  intro m₁ m₂ ks₁ ks₂ op' h₁ h₂
  rw [find?_insert] at h₁ h₂
  split at h₁ <;> split at h₂
  · next heq₁ heq₂ => exact ⟨heq₁.1.trans heq₂.1.symm, heq₁.2.trans heq₂.2.symm⟩
  -- a signature that was there before is not one of the new opcode
  · cases h₁
    exact absurd h₂ (hnew _ _)
  · cases h₂
    exact absurd h₁ (hnew _ _)
  · exact hu h₁ h₂

theorem unambiguous_standard : standard.Unambiguous := by
  intro m n ks ls op h₁ h₂
  obtain ⟨rfl, rfl⟩ := Operation.mem_table_iff.1 (find?_standard_iff.1 h₁)
  obtain ⟨rfl, rfl⟩ := Operation.mem_table_iff.1 (find?_standard_iff.1 h₂)
  exact ⟨rfl, rfl⟩

/-- **The tree of the language answers for every opcode**, with the signature of its operation. -/
theorem registration?_standard (op : Opcode) :
    standard.registration? op = some (op.operation.mnemonic, op.operation.kinds) :=
  unambiguous_standard.registration?_eq
    (find?_standard_iff.2 (Operation.mem_table_iff.2 ⟨rfl, rfl⟩))

end Asm256.SignatureTree
