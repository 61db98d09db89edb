/-
Listings of assembled programs, assembled again.

The listing of an assembled text is one of instructions that can be written, and
its targets are the bytes of the labels that are used.  Such a label stands for
the first byte of a statement, and so for the address of an entry, unless it is
behind all statements: there is no entry for it to be written in front of
(`Assembly.Listed.target_iff`).  So the listing is assembled to the same code
exactly if no operand names a label at the end of the code, or if the memory is
full of code, when that label is the byte 0 (`listing_reassembles_iff`).
-/
import Asm256.Proofs.Listing.Assembled
import Asm256.Proofs.Listing.Reassembly
import Asm256.Proofs.Program.Targets

namespace Asm256

open Statement (totalSize codeOf)

variable {tree : SignatureTree} {labels : LabelTable} {a : Assembly} {s : Statement} {e : Entry}
  {es : List Entry} {n : Nat}

theorem exists_of_forall₂_of_mem {α β : Type} {R : α → β → Prop} {as : List α} {bs : List β}
    (h : List.Forall₂ R as bs) : (∀ a ∈ as, ∃ b ∈ bs, R a b) ∧ ∀ b ∈ bs, ∃ a ∈ as, R a b := by
  induction h with
  | nil => simp
  | cons hab _ ih =>
    constructor
    · rw [List.forall_mem_cons]
      refine ⟨⟨_, by simp, hab⟩, fun a ha => ?_⟩
      obtain ⟨b, hb, hr⟩ := ih.1 a ha
      exact ⟨b, by simp [hb], hr⟩
    · rw [List.forall_mem_cons]
      refine ⟨⟨_, by simp, hab⟩, fun b hb => ?_⟩
      obtain ⟨a, ha, hr⟩ := ih.2 b hb
      exact ⟨a, by simp [ha], hr⟩

/-- The operands of an entry have the kinds and the bytes of those of its statement. -/
theorem Statement.Listed.operands (h : s.Listed tree labels n e) :
    List.Forall₂ (fun o v => v.1 = o.value.kind ∧ o.value.HasByte labels v.2)
      s.operands e.operands := by
  have hkinds : e.operands.map Prod.fst = s.operands.map fun o => o.value.kind := h.kinds_eq
  have hvalues := h.values
  generalize s.operands = os at hkinds hvalues ⊢
  generalize e.operands = vs at hkinds hvalues ⊢
  induction hvalues with
  | nil => exact .nil
  | cons hb _ ih =>
    rw [List.map_cons, List.map_cons, List.cons.injEq] at hkinds
    exact .cons ⟨hkinds.1, hb⟩ (ih hkinds.2)

namespace Assembly.Listed

variable (h : a.Listed tree es)

include h

theorem exists_statement (he : e ∈ es) : ∃ front s back,
    a.statements = front ++ s :: back ∧ s.Listed tree a.labels (totalSize front) e := by
  obtain ⟨k, hk, rfl⟩ := List.mem_iff_getElem.1 he
  have hlt : k < a.statements.length := h.length_eq ▸ hk
  obtain ⟨e, hek, hl⟩ := h.entry k _ (List.getElem?_eq_getElem hlt)
  rw [List.getElem?_eq_getElem hk] at hek
  cases hek
  refine ⟨_, _, a.statements.drop (k + 1), ?_, hl⟩
  rw [← List.drop_eq_getElem_cons hlt, List.take_append_drop]

theorem exists_entry {front back : List Statement} (hs : a.statements = front ++ s :: back) :
    ∃ e ∈ es, s.Listed tree a.labels (totalSize front) e := by
  obtain ⟨e, he, hl⟩ := h.entry front.length s (by rw [hs]; simp)
  rw [hs, List.take_left] at hl
  exact ⟨e, List.mem_of_getElem? he, hl⟩

/-- An entry of an assembled statement can be written. -/
theorem writable (hsound : a.Sound tree) (he : e ∈ es) : e.Writable := by
  obtain ⟨front, s, back, hs, hl⟩ := h.exists_statement he
  obtain ⟨op, -, hop⟩ := hl.opcode
  refine ⟨by rw [hop]; rfl, ?_⟩
  rintro ⟨k, v⟩ hv rfl
  obtain ⟨o, ho, hk, hb⟩ := (exists_of_forall₂_of_mem hl.operands).2 _ hv
  have hw := hsound.writable s (by simp [hs]) o ho
  cases hval : o.value with
  | register i =>
    rw [hval] at hb hw
    have hlt : 0 ≤ i ∧ i < registerCount := hw
    have hi := hb.number i rfl
    omega
  | memory i | literal i | label name => simp [hval, Operand.kind] at hk

/-- The targets are the bytes of the labels that are used. -/
theorem mem_targets_iff : n ∈ Listing.targets es ↔ ∃ s ∈ a.statements, ∃ o ∈ s.operands,
    ∃ name l, o.value = .label name ∧ a.labels.find? name = some l ∧
      (n : Int) = l.address % 256 := by
  rw [Listing.mem_targets]
  constructor
  · rintro ⟨e, he, hn⟩
    obtain ⟨v, hv, rfl⟩ := Listing.mem_entry_targets.1 hn
    obtain ⟨front, s, back, hs, hl⟩ := h.exists_statement he
    obtain ⟨o, ho, hk, hb⟩ := (exists_of_forall₂_of_mem hl.operands).2 _ hv
    cases hval : o.value with
    | label name =>
      obtain ⟨l, hfind, hbyte⟩ := hb.label name hval
      exact ⟨s, by simp [hs], o, ho, name, l, hval, hfind, hbyte⟩
    | register i | memory i | literal i => simp [hval, Operand.kind] at hk
  · rintro ⟨s, hmem, o, ho, name, l, hval, hfind, hn⟩
    obtain ⟨front, back, hs⟩ := List.append_of_mem hmem
    obtain ⟨e, he, hl⟩ := h.exists_entry hs
    obtain ⟨⟨k, v⟩, hv, hk, hb⟩ := (exists_of_forall₂_of_mem hl.operands).1 o ho
    obtain ⟨l', hfind', hbyte⟩ := hb.label name hval
    obtain rfl : l = l' := Option.some.inj (hfind.symm.trans hfind')
    obtain rfl : k = .label := hk.trans (congrArg Operand.kind hval)
    exact ⟨e, he, Listing.mem_entry_targets.2 ⟨v, hv, Int.ofNat_inj.1 (hbyte.trans hn.symm)⟩⟩

/-- There are entries for the addresses of statements. -/
theorem exists_address_iff : (∃ e ∈ es, e.address = n) ↔
    ∃ front s back, a.statements = front ++ s :: back ∧ totalSize front = n := by
  constructor
  · rintro ⟨e, he, rfl⟩
    obtain ⟨front, s, back, hs, hl⟩ := h.exists_statement he
    exact ⟨front, s, back, hs, hl.address_eq.symm⟩
  · rintro ⟨front, s, back, hs, rfl⟩
    obtain ⟨e, he, hl⟩ := h.exists_entry hs
    exact ⟨e, he, hl.address_eq⟩

/-- **A label is written in front of an entry**, unless it is at the end of code that does not fill
the memory. -/
theorem target_iff (hsound : a.Sound tree) {l : Label} (hl : l ∈ a.labels)
    (hn : (n : Int) = l.address % 256) : (∃ e ∈ es, e.address = n) ↔
      (l.address = a.image.codeSize → a.image.codeSize = memorySize) := by
  obtain ⟨front, back, hs, haddress, -⟩ := hsound.label l hl
  have hsize := hsound.codeSize_eq
  have hle : a.image.codeSize ≤ 256 := a.image.codeSize_le
  have hsplit : totalSize a.statements = totalSize front + totalSize back := by
    rw [hs, Statement.totalSize_append]
  rw [h.exists_address_iff]
  constructor
  · rintro ⟨front', s', back', hs', rfl⟩ hend
    have hpos := s'.size_pos
    rw [hs', Statement.totalSize_append, Statement.totalSize_cons] at hsize
    show a.image.codeSize = 256
    omega
  · intro hend
    change l.address = a.image.codeSize → a.image.codeSize = 256 at hend
    by_cases hlast : l.address = a.image.codeSize
    · -- the memory is full, and the label is the byte 0
      have hfull := hend hlast
      cases hstatements : a.statements with
      | nil =>
        rw [hstatements, Statement.totalSize_nil] at hsize
        omega
      | cons s ss => exact ⟨[], s, ss, rfl, by rw [Statement.totalSize_nil]; omega⟩
    · cases back with
      | nil =>
        rw [Statement.totalSize_nil] at hsplit
        omega
      | cons s back =>
        have hpos := s.size_pos
        rw [Statement.totalSize_cons] at hsplit
        exact ⟨front, s, back, hs, by omega⟩

end Assembly.Listed

/-- No operand names a label at the end of the code, unless the memory is full of code. -/
def Assembly.BranchesInside (a : Assembly) : Prop :=
  ∀ s ∈ a.statements, ∀ o ∈ s.operands, ∀ name l, o.value = .label name →
    a.labels.find? name = some l → l.address = a.image.codeSize → a.image.codeSize = memorySize

/-- The listing of an assembled text is complete if no branch leads behind all its entries. -/
theorem Assembly.Listed.complete_iff (h : a.Listed tree es) (hsound : a.Sound tree) :
    Listing.Complete es ↔ a.BranchesInside := by
  rw [Listing.complete_iff]
  constructor
  · rintro ⟨-, htarget⟩ s hs o ho name l hname hl
    have hmod : 0 ≤ l.address % 256 := Int.emod_nonneg _ (by decide)
    have hn : ((l.address % 256).toNat : Int) = l.address % 256 := Int.toNat_of_nonneg hmod
    exact (h.target_iff hsound (List.mem_of_find?_eq_some hl) hn).1
      (htarget _ (h.mem_targets_iff.2 ⟨s, hs, o, ho, name, l, hname, hl, hn⟩))
  · intro hinside
    refine ⟨fun e he => h.writable hsound he, fun n hn => ?_⟩
    obtain ⟨s, hs, o, ho, name, l, hname, hl, hn⟩ := h.mem_targets_iff.1 hn
    exact (h.target_iff hsound (List.mem_of_find?_eq_some hl) hn).2
      (hinside s hs o ho name l hname hl)

/-- **When the listing of an assembled text is assembled to the same code**: exactly if no operand
names a label at the end of the code, or the memory is full of code.  Otherwise it has an error of
the program, as there is no entry that the label could be written in front of. -/
theorem listing_reassembles_iff {w : Nat} {text : List Char}
    (h : assemble .standard w text = .ok a) (w' : Nat) :
    ∃ es, Listing.entries .standard a.image.memory.toList a.image.codeSize = .ok es ∧
      ((∃ b, assemble .standard w' (Listing.source es).toList = .ok b ∧
          b.image.code = a.image.code) ↔ a.BranchesInside) ∧
      (¬ a.BranchesInside →
        ∃ e, assemble .standard w' (Listing.source es).toList = .error (.source e)) := by
  have hsound := Assembly.sound_of_assemble h
  obtain ⟨es, hsweeps, hes, hlisted⟩ :=
    hsound.exists_entries SignatureTree.unambiguous_standard
  have hle : a.image.code.length ≤ memorySize := by
    rw [hsound.image.code, ← hsound.image.codeSize]
    exact a.image.codeSize_le
  refine ⟨es, hes, ?_⟩
  rw [← hlisted.complete_iff hsound]
  exact hsweeps.assemble_source_iff hle w'

/-- A branch to a label behind it, which nothing follows: its listing has no such label. -/
theorem listing_reassembles_iff_label_behind : ∃ a es e,
    assemble .standard 4 "B e;e:".toList = .ok a ∧ ¬ a.BranchesInside ∧
    Listing.entries .standard a.image.memory.toList a.image.codeSize = .ok es ∧
    assemble .standard 4 (Listing.source es).toList = .error (.source e) := by
  have hrun : ((assemble .standard 4 "B e;e:".toList).toOption.any fun a =>
      decide (∃ s ∈ a.statements, ∃ o ∈ s.operands, o.value = .label "e") &&
      decide (∃ l ∈ a.labels.find? "e", l.address = a.image.codeSize) &&
      decide (a.image.codeSize ≠ memorySize)) = true := by
    decide +kernel
  obtain ⟨a, ha, hrun⟩ := exists_ok_of_any hrun
  simp only [Bool.and_eq_true, decide_eq_true_eq] at hrun
  obtain ⟨⟨⟨s, hs, o, ho, hname⟩, l, hl, haddress⟩, hsize⟩ := hrun
  have hout : ¬ a.BranchesInside := fun hin => hsize (hin s hs o ho "e" l hname hl haddress)
  obtain ⟨es, hes, -, herror⟩ := listing_reassembles_iff ha 4
  obtain ⟨e, he⟩ := herror hout
  exact ⟨a, es, e, ha, hout, hes, he⟩

end Asm256
