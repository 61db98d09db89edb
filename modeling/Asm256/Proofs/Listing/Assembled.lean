/-
Listings of assembled code.

The code of an assembly is listed statement by statement, whatever table of
signatures it was assembled with, as long as no opcode has two signatures in it:
then an opcode in the code leads back to the mnemonic and the operands that it
was chosen for, and the sweep takes as many bytes as the statement has.
* `Statement.Listed` — an entry is that of a statement;
* `Statement.sweeps_codeOf` — the code of statements has their entries, one after the other;
* `listing_of_assembly` — so has the image of an assembled text.
-/
import Asm256.Proofs.Listing.Sweep

namespace Asm256

open Statement (totalSize codeOf)

variable {tree : SignatureTree} {labels : LabelTable} {s : Statement} {ss : List Statement}

/-- The byte is that of the operand: its number, or the address of its label modulo 256. -/
structure Operand.HasByte (labels : LabelTable) (o : Operand) (b : UInt8) : Prop where
  number : ∀ n, o.value? = some n → (b.toNat : Int) = n
  label : ∀ name, o = .label name →
    ∃ l, labels.find? name = some l ∧ (b.toNat : Int) = l.address % 256

/-- Writable operands have the bytes that they are written as. -/
theorem Operand.hasByte {o : Operand} (hr : o.Resolves labels) (hw : o.Writable) :
    o.HasByte labels (o.byte labels) := by
  cases o with
  | label name =>
    refine ⟨by simp [value?], fun name' heq => ?_⟩
    cases heq
    obtain ⟨l, hl⟩ := hr name rfl
    refine ⟨l, hl, ?_⟩
    have hb := Byte.toNat_wrap l.address
    simpa [byte, resolve, hl] using hb
  | register n =>
    obtain ⟨hpos, hlt⟩ : 0 ≤ n ∧ n < 13 := hw
    have hfits : Byte.Fits n := ⟨hpos, by omega⟩
    refine ⟨fun m hm => ?_, by simp⟩
    cases hm
    exact Byte.toNat_wrap_of_fits hfits
  | memory n | literal n =>
    obtain ⟨hpos, hlt⟩ : 0 ≤ n ∧ n < 256 := hw
    have hfits : Byte.Fits n := ⟨hpos, by omega⟩
    refine ⟨fun m hm => ?_, by simp⟩
    cases hm
    exact Byte.toNat_wrap_of_fits hfits

/-- The entry is that of the statement at an address. -/
structure Statement.Listed (tree : SignatureTree) (labels : LabelTable) (address : Nat)
    (s : Statement) (e : Entry) : Prop where
  address_eq : e.address = address
  opcode : ∃ op, tree.find? s.mnemonic.value s.kinds = some op ∧ e.opcode? = some op
  kinds_eq : e.operands.map Prod.fst = s.kinds
  values : List.Forall₂ (fun o v => o.value.HasByte labels v.2) s.operands e.operands
  size_eq : e.size = s.size
  text : s.mnemonic.value.name.toList <+: e.text.toList

/-- An instruction is written with its mnemonic first. -/
theorem Entry.name_prefix_text (n : Nat) (op : Opcode) (m : Mnemonic)
    (os : List (OperandKind × UInt8)) :
    m.name.toList <+: (Entry.instruction n op m os).text.toList := by
  cases os with
  | nil => exact List.prefix_refl _
  | cons o os =>
    rw [text, String.toList_append, String.toList_append, List.append_assoc]
    · exact List.prefix_append _ _
    · simp

namespace Statement

/-- The instruction with the opcode and the operands of a statement is its entry. -/
theorem Encodable.listed (h : s.Encodable tree labels) (hw : ∀ o ∈ s.operands, o.value.Writable)
    {op : Opcode} (hop : tree.find? s.mnemonic.value s.kinds = some op) (n : Nat) :
    s.Listed tree labels n
      (.instruction n op s.mnemonic.value (s.kinds.zip (s.operandBytes labels))) where
  address_eq := rfl
  opcode := ⟨op, hop, rfl⟩
  kinds_eq := List.map_fst_zip (by simp [kinds, operandBytes])
  values := by
    show List.Forall₂ _ s.operands (s.kinds.zip (s.operandBytes labels))
    rw [kinds, operandBytes, List.zip_map', List.forall₂_map_right_iff, List.forall₂_same]
    exact fun o ho => Operand.hasByte (h.2 o ho) (hw o ho)
  size_eq := by simp [Entry.size, Entry.raw, kinds, operandBytes, size, Nat.add_comm]
  text := Entry.name_prefix_text _ _ _ _

/-- **The code of statements has their entries**, one after the other. -/
theorem sweeps_codeOf (hu : tree.Unambiguous) (he : ∀ s ∈ ss, s.Encodable tree labels)
    (hw : ∀ s ∈ ss, ∀ o ∈ s.operands, o.value.Writable) (n : Nat) :
    ∃ es, Listing.Sweeps tree n (codeOf tree labels ss) es ∧ es.length = ss.length ∧
      ∀ k s, ss[k]? = some s →
        ∃ e, es[k]? = some e ∧ Listed tree labels (n + totalSize (ss.take k)) s e := by
  induction ss generalizing n with
  | nil => exact ⟨[], .nil, rfl, by simp⟩
  | cons s ss ih =>
    rw [List.forall_mem_cons] at he hw
    obtain ⟨op, hop⟩ := Option.isSome_iff_exists.1 he.1.1
    have hlen : (s.operandBytes labels).length = s.kinds.length := by
      simp [operandBytes, kinds]
    have hsize : n + 1 + s.kinds.length = n + s.size := by
      rw [← hlen, ← @length_operandBytes labels s]
      omega
    obtain ⟨es, hes, hcount, hlisted⟩ := ih he.2 hw.2 (n + s.size)
    rw [← hsize] at hes
    refine ⟨.instruction n op s.mnemonic.value (s.kinds.zip (s.operandBytes labels)) :: es, ?_,
      by rw [List.length_cons, hcount, List.length_cons], fun k s' hk => ?_⟩
    · rw [codeOf_cons, Encodable.code_eq hop]
      exact .instruction (hu.registration?_eq hop) hlen hes
    · cases k with
      | zero =>
        obtain rfl : s = s' := by simpa using hk
        exact ⟨_, rfl, he.1.listed hw.1 hop n⟩
      | succ k =>
        obtain ⟨e, hek, hl⟩ := hlisted k s' (by simpa using hk)
        refine ⟨e, by simpa using hek, ?_⟩
        rw [List.take_succ_cons, totalSize_cons, ← Nat.add_assoc]
        exact hl

end Statement

/-- The entries are those of the statements, one after the other. -/
structure Assembly.Listed (tree : SignatureTree) (a : Assembly) (es : List Entry) : Prop where
  length_eq : es.length = a.statements.length
  entry : ∀ k (s : Statement), a.statements[k]? = some s →
    ∃ e, es[k]? = some e ∧ s.Listed tree a.labels (totalSize (a.statements.take k)) e

/-- The image of an assembly has the entries of its statements. -/
theorem Assembly.Sound.exists_entries {a : Assembly} (h : a.Sound tree) (hu : tree.Unambiguous) :
    ∃ es, Listing.Sweeps tree 0 a.image.code es ∧
      Listing.entries tree a.image.memory.toList a.image.codeSize = .ok es ∧ a.Listed tree es := by
  obtain ⟨es, hes, hcount, hlisted⟩ := Statement.sweeps_codeOf hu h.encodable h.writable 0
  simp only [Nat.zero_add] at hlisted
  rw [← h.image.code] at hes
  refine ⟨es, hes, hes.entries_eq ?_, hcount, hlisted⟩
  rw [Vector.length_toList]
  exact a.image.codeSize_le

/-- **Assembled code is listed statement by statement**, for every tree that registers no opcode
twice, as that of the language: the entries are those of the statements, in order, and none is a
byte of data. -/
theorem listing_of_assembly :
    SignatureTree.standard.Unambiguous ∧
    ∀ tree : SignatureTree, tree.Unambiguous → ∀ (w : Nat) (text : List Char) (a : Assembly),
      assemble tree w text = .ok a →
      ∃ es, Listing.entries tree a.image.memory.toList a.image.codeSize = .ok es ∧
        es.length = a.statements.length ∧
        ∀ k s, a.statements[k]? = some s →
          ∃ e, es[k]? = some e ∧
            Statement.Listed tree a.labels (totalSize (a.statements.take k)) s e := by
  refine ⟨SignatureTree.unambiguous_standard, fun tree hu w text a h => ?_⟩
  obtain ⟨es, -, hes, hlisted⟩ := (Assembly.sound_of_assemble h).exists_entries hu
  exact ⟨es, hes, hlisted.length_eq, hlisted.entry⟩

/-- A tree in which two opcodes have signatures of other instructions, and a statement whose
operands are bytes of opcodes. -/
theorem listing_of_assembly_exchanged : ∃ tree a es s e,
    tree.Unambiguous ∧ assemble tree 4 "NOP;x:LDR x, #0".toList = .ok a ∧
    Listing.entries tree a.image.memory.toList a.image.codeSize = .ok es ∧
    a.statements[1]? = some s ∧ es[1]? = some e ∧ s.Listed tree a.labels 1 e ∧
    e.text = "LDR L_b, #0" := by
  let halfway := SignatureTree.empty.insert .ldr [.label, .literal] .nop
  let tree := halfway.insert .nop [] .ldr
  have hhalfway : halfway.Unambiguous := SignatureTree.unambiguous_empty.insert fun m ks => by
    rw [show SignatureTree.empty.find? m ks = none from Trie.find?_empty ks]
    simp
  have hu : tree.Unambiguous := hhalfway.insert fun m ks => by
    rw [SignatureTree.find?_insert,
      show SignatureTree.empty.find? m ks = none from Trie.find?_empty ks]
    split <;> simp
  have hrun : ((assemble tree 4 "NOP;x:LDR x, #0".toList).toOption.any fun a =>
      (Listing.entries tree a.image.memory.toList a.image.codeSize).toOption.any fun es =>
        decide (totalSize (a.statements.take 1) = 1) && decide (a.statements.length = 2) &&
        decide (es[1]?.map Entry.text = some "LDR L_b, #0")) = true := by
    decide +kernel
  obtain ⟨a, ha, hrun⟩ := exists_ok_of_any hrun
  obtain ⟨es, hes, -, hlisted⟩ := listing_of_assembly.2 tree hu 4 _ a ha
  rw [hes] at hrun
  simp only [Except.toOption, Option.any_some, Bool.and_eq_true, decide_eq_true_eq] at hrun
  obtain ⟨⟨hsize, hcount⟩, htext⟩ := hrun
  have hs : a.statements[1]? = some a.statements[1] := List.getElem?_eq_getElem (by omega)
  obtain ⟨e, he, hl⟩ := hlisted 1 _ hs
  rw [hsize] at hl
  rw [he, Option.map_some, Option.some_inj] at htext
  exact ⟨tree, a, es, _, e, hu, ha, hes, hs, he, hl, htext⟩

end Asm256
