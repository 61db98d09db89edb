/-
Look-up in signature trees.

An insertion binds one signature and leaves all others alone
(`SignatureTree.find?_insert`).  So the tree of the language answers exactly
what the instruction table says (`SignatureTree.find?_standard_iff`).
-/
import Asm256.Instruction.Table
import Mathlib

namespace Asm256

theorem lookup_map_snd {α β γ : Type} [BEq α] (f : β → γ) (l : List (α × β)) (a : α) :
    (l.map fun e => (e.1, f e.2)).lookup a = (l.lookup a).map f := by
  induction l with
  | nil => rfl
  | cons e l ih =>
    rw [List.map_cons, List.lookup_cons, List.lookup_cons, ih]
    cases a == e.1 <;> rfl

namespace SignatureTree

variable {t : SignatureTree} {m n : Mnemonic} {ks ls : List OperandKind} {op : Opcode}

theorem lookup_putRoot {α : Type} (m n : Mnemonic) (r : α) (ps : List (Mnemonic × α)) :
    (putRoot m r ps).lookup n = if n = m then some r else ps.lookup n := by
  induction ps with
  | nil =>
    by_cases h : n = m
    · simp [putRoot, h]
    · have hbeq : (n == m) = false := beq_eq_false_iff_ne.mpr h
      simp [putRoot, List.lookup_cons, h, hbeq]
  | cons p ps ih =>
    obtain ⟨k, q⟩ := p
    by_cases h : n = k
    · subst h
      by_cases hk : n = m <;> simp [putRoot, hk]
    · have hbeq : (n == k) = false := beq_eq_false_iff_ne.mpr h
      by_cases hk : k = m
      · subst hk
        simp [putRoot, List.lookup_cons, h, hbeq]
      · simp [putRoot, hk, List.lookup_cons, hbeq, ih]

theorem root_insert : (t.insert m ks op).root n
    = if n = m then (t.root m).insert ks op else t.root n := by
  by_cases h : n = m <;> simp [insert, root, lookup_putRoot, h]

/-- An insertion binds one signature and leaves all others alone. -/
theorem find?_insert : (t.insert m ks op).find? n ls
    = if n = m ∧ ls = ks then some op else t.find? n ls := by
  rw [find?, root_insert]
  by_cases hn : n = m
  · subst hn
    by_cases hl : ls = ks
    · subst hl
      simp
    · rw [if_pos rfl, if_neg (by simp [hl]), Trie.find?_insert_of_ne _ op hl]
      rfl
  · rw [if_neg hn, if_neg (by simp [hn])]
    rfl

/-- What is found after insertions is a row that was inserted, or was there before. -/
theorem mem_of_find?_foldl {rows : List (Mnemonic × List OperandKind × Opcode)}
    (h : (rows.foldl (fun t row => t.insert row.1 row.2.1 row.2.2) t).find? m ks = some op) :
    (m, ks, op) ∈ rows ∨ t.find? m ks = some op := by
  induction rows generalizing t with
  | nil => exact .inr h
  | cons row rows ih =>
    rcases ih h with hmem | hf
    · exact .inl (List.mem_cons_of_mem _ hmem)
    · rw [find?_insert] at hf
      split at hf
      · next heq =>
        obtain ⟨rfl, rfl⟩ := heq
        cases hf
        exact .inl List.mem_cons_self
      · exact .inr hf

theorem find?_of_mem_table : ∀ row ∈ table, standard.find? row.1 row.2.1 = some row.2.2 := by
  decide

/-- **The tree of the language answers what the instruction table says.** -/
theorem find?_standard_iff : standard.find? m ks = some op ↔ (m, ks, op) ∈ table := by
  constructor
  · intro h
    rcases mem_of_find?_foldl (t := empty) h with hmem | hf
    · exact hmem
    · have hnone : empty.find? m ks = none := Trie.find?_empty ks
      rw [hnone] at hf
      simp at hf
  · intro h
    exact find?_of_mem_table _ h

end SignatureTree

end Asm256
