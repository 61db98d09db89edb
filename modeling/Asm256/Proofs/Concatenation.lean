/-
Programs one after the other.

Two texts with a line feed between them are assembled to the code of the first,
with that of the second behind it.  Labels of the second program have moved by
the size of the first, and so have the bytes that encode them; all other bytes
are as they were:
* `LabelTable.find?_append_moved` — names in the table of both programs;
* `Statement.codeOf_append_labels` — the code of the first program;
* `Statement.toNat_codeOf_moved` — the code of the second (`relocate`);
* `joined_programs_join_code` — the assembly of the joined text.
-/
import Asm256.Instruction.Table
import Asm256.Proofs.Script.Acceptance
import Asm256.Proofs.Source.Joining

namespace Asm256

/-! ### Labels of both programs -/

namespace LabelTable

variable {labels more : LabelTable} {name : String} {l : Label}

theorem find?_append_of_some (h : labels.find? name = some l) (more : LabelTable) :
    LabelTable.find? (labels ++ more) name = some l := by
  rw [find?, List.find?_append, ← find?, h]
  rfl

theorem find?_moved (n k : Nat) (labels : LabelTable) (name : String) :
    LabelTable.find? (labels.map (Label.moved n k)) name =
      (labels.find? name).map (Label.moved n k) := by
  rw [find?, List.find?_map]
  rfl

/-- A name that is not in the first table is that of a label that has moved. -/
theorem find?_append_moved (h : name ∉ labels.map Label.name) (n k : Nat) (more : LabelTable) :
    LabelTable.find? (labels ++ more.map (Label.moved n k)) name =
      (more.find? name).map (Label.moved n k) := by
  have hnone : labels.find? name = none :=
    Option.eq_none_iff_forall_ne_some.2 fun l hl => h (exists_find?_iff.1 ⟨l, hl⟩)
  rw [find?, List.find?_append, ← find?, hnone, Option.none_or, ← find?, find?_moved]

end LabelTable

/-! ### Code of both programs -/

namespace Operand

variable {labels more : LabelTable} {o : Operand}

/-- More labels behind a table change nothing for an operand that it resolves. -/
theorem Resolves.append (h : o.Resolves labels) (more : LabelTable) :
    o.Resolves (labels ++ more) ∧ o.resolve (labels ++ more) = o.resolve labels := by
  cases o with
  | label name =>
    obtain ⟨l, hl⟩ := h name rfl
    have happend := LabelTable.find?_append_of_some hl more
    refine ⟨fun m hm => ?_, by rw [resolve, resolve, hl, happend]⟩
    cases hm
    exact ⟨l, happend⟩
  | register n | memory n | literal n =>
    refine ⟨fun m hm => ?_, rfl⟩
    cases hm

/-- A byte that encodes a label is larger by `n` if the label has moved by `n`, and no other byte
changes. -/
theorem Resolves.moved {n : Nat} (h : o.Resolves more)
    (hnames : (labels.map Label.name).Disjoint (more.map Label.name))
    (hfits : ∀ l ∈ more, 0 ≤ l.address ∧ l.address + n ≤ 255) (k : Nat) :
    o.Resolves (labels ++ more.map (Label.moved n k)) ∧
      (Byte.wrap (o.resolve (labels ++ more.map (Label.moved n k)))).toNat =
        if o.kind = .label then (Byte.wrap (o.resolve more)).toNat + n
        else (Byte.wrap (o.resolve more)).toNat := by
  cases o with
  | label name =>
    obtain ⟨l, hl⟩ := h name rfl
    have hname : name ∉ labels.map Label.name := fun hmem =>
      hnames hmem (LabelTable.exists_find?_iff.1 ⟨l, hl⟩)
    have hmoved := LabelTable.find?_append_moved hname n k more
    rw [hl, Option.map_some] at hmoved
    refine ⟨fun m hm => ?_, ?_⟩
    · cases hm
      exact ⟨_, hmoved⟩
    · obtain ⟨h0, hn⟩ := hfits l (List.mem_of_find?_eq_some hl)
      have hbyte := Byte.toNat_wrap_of_fits (x := l.address) ⟨h0, by omega⟩
      have hbyte' := Byte.toNat_wrap_of_fits (x := l.address + n) ⟨by omega, hn⟩
      have hkind : (label name).kind = .label := rfl
      rw [if_pos hkind, resolve, resolve, hmoved, hl]
      show (Byte.wrap (l.address + n)).toNat = (Byte.wrap l.address).toNat + n
      omega
  | register n | memory n | literal n =>
    refine ⟨fun m hm => ?_, rfl⟩
    cases hm

end Operand

/-- Code behind `n` more bytes: each byte that is marked as the address of a label is larger by
`n`. -/
def relocate (n : Nat) (marks : List Bool) (code : List UInt8) : List Nat :=
  List.zipWith (fun isLabel byte => if isLabel then byte.toNat + n else byte.toNat) marks code

theorem relocate_append {n : Nat} {marks more : List Bool} {code code' : List UInt8}
    (h : marks.length = code.length) :
    relocate n (marks ++ more) (code ++ code') = relocate n marks code ++ relocate n more code' :=
  List.zipWith_append h

namespace Statement

variable {tree : SignatureTree} {labels more : LabelTable} {s : Statement} {ss : List Statement}

/-- Which bytes of a statement encode labels: not the opcode, but those of operands that are
labels. -/
def labelMarks (s : Statement) : List Bool :=
  false :: s.operands.map fun o => decide (o.value.kind = .label)

theorem length_labelMarks (s : Statement) : s.labelMarks.length = s.size := by
  rw [labelMarks, List.length_cons, List.length_map, size, Nat.add_comm]

theorem length_flatMap_labelMarks (ss : List Statement) :
    (ss.flatMap labelMarks).length = totalSize ss := by
  simp only [List.length_flatMap, length_labelMarks, totalSize]

theorem Encodable.append (h : s.Encodable tree labels) (more : LabelTable) :
    s.Encodable tree (labels ++ more) ∧ s.code tree (labels ++ more) = s.code tree labels := by
  obtain ⟨hfind, hresolves⟩ := h
  refine ⟨⟨hfind, fun o ho => ((hresolves o ho).append more).1⟩, ?_⟩
  rw [code, code]
  refine congrArg _ (List.map_congr_left fun o ho => ?_)
  rw [((hresolves o ho).append more).2]

/-- **More labels behind those of a program do not change its code.** -/
theorem codeOf_append_labels (h : ∀ s ∈ ss, s.Encodable tree labels) (more : LabelTable) :
    codeOf tree (labels ++ more) ss = codeOf tree labels ss := by
  induction ss with
  | nil => rfl
  | cons s ss ih =>
    rw [List.forall_mem_cons] at h
    rw [codeOf_cons, codeOf_cons, (h.1.append more).2, ih h.2]

section Moved

variable {n : Nat} (hnames : (labels.map Label.name).Disjoint (more.map Label.name))
  (hfits : ∀ l ∈ more, 0 ≤ l.address ∧ l.address + n ≤ 255) (k : Nat)

include hnames hfits

/-- A statement of the second program has an encoding among the labels of both, and its bytes are
those it had, apart from the labels. -/
theorem Encodable.moved (h : s.Encodable tree more) :
    (s.down k).Encodable tree (labels ++ more.map (Label.moved n k)) ∧
      ((s.down k).code tree (labels ++ more.map (Label.moved n k))).map UInt8.toNat =
        relocate n s.labelMarks (s.code tree more) := by
  obtain ⟨hfind, hresolves⟩ := h
  have hkinds : (s.down k).kinds = s.kinds := by
    rw [kinds, kinds, down, List.map_map]
    rfl
  refine ⟨⟨by rw [hkinds]; exact hfind, ?_⟩, ?_⟩
  · intro o ho
    obtain ⟨u, hu, rfl⟩ := List.mem_map.1 ho
    exact ((hresolves u hu).moved hnames hfits k).1
  · obtain ⟨op, hop⟩ := Option.isSome_iff_exists.1 hfind
    have hop' : tree.find? (s.down k).mnemonic.value (s.down k).kinds = some op := by
      rw [hkinds]
      exact hop
    rw [Encodable.code_eq hop, Encodable.code_eq hop', relocate, labelMarks,
      List.zipWith_cons_cons, List.map_cons, List.zipWith_map, List.zipWith_self, down,
      List.map_map, List.map_map]
    refine congrArg _ (List.map_congr_left fun o ho => ?_)
    simpa using ((hresolves o ho).moved hnames hfits k).2

/-- **The code of the second program is relocated.** -/
theorem toNat_codeOf_moved (h : ∀ s ∈ ss, s.Encodable tree more) :
    (codeOf tree (labels ++ more.map (Label.moved n k)) (ss.map (down k))).map UInt8.toNat =
      relocate n (ss.flatMap labelMarks) (codeOf tree more ss) := by
  induction ss with
  | nil => rfl
  | cons s ss ih =>
    rw [List.forall_mem_cons] at h
    have hlength : s.labelMarks.length = (s.code tree more).length := by
      rw [length_labelMarks, h.1.length_code]
    rw [List.map_cons, codeOf_cons, codeOf_cons, List.map_append, ih h.2,
      (h.1.moved hnames hfits k).2, List.flatMap_cons, relocate_append hlength]

end Moved

end Statement

/-! ### The joined text -/

variable {tree : SignatureTree} {w : Nat} {p q : List Char} {a b : Assembly}

namespace Assembled

variable {ps qs : List Piece}

theorem size_pieces (h : Assembled tree w ps a) (hp : Piece.Spells ps p) :
    Piece.size ps = a.image.codeSize := by
  rw [h.codeSize_eq, totalSize_of_sequence hp h.parsed]

/-- Labels stand for places in the code or for its end, so bytes have room for them behind `n` more
bytes of code if they have for the code. -/
theorem address_fits (h : Assembled tree w ps a) (hp : Piece.Spells ps p) {n : Nat}
    (hfits : n + a.image.codeSize ≤ 255) :
    ∀ l ∈ a.labels, 0 ≤ l.address ∧ l.address + n ≤ 255 := by
  intro l hl
  obtain ⟨front, back, hstatements, haddress, -⟩ := h.label hp hl
  have hsize := h.codeSize_eq
  rw [hstatements, Statement.totalSize_append] at hsize
  omega

/-- **The pieces of two texts are assembled together** to the statements and the labels of both. -/
theorem join (ha : Assembled tree w ps a) (hb : Assembled tree w qs b) (hp : Piece.Spells ps p)
    (hq : Piece.Spells qs q)
    (hnames : (a.labels.map Label.name).Disjoint (b.labels.map Label.name))
    (hfits : a.image.codeSize + b.image.codeSize ≤ 255) :
    let k := p.count '\n' + 1
    let labels := a.labels ++ b.labels.map (Label.moved a.image.codeSize k)
    let statements := a.statements ++ b.statements.map (Statement.down k)
    ∃ i, Assembled tree w (Piece.join ps qs) ⟨i, labels, statements⟩ := by
  intro k labels statements
  have hdisjoint : (Piece.names ps).Disjoint (Piece.names qs) := by
    rw [ha.labels_eq, hb.labels_eq] at hnames
    simpa only [Piece.stream, Piece.map_name_labels] using hnames
  have hfits' : Piece.size ps + Piece.size qs ≤ memorySize := by
    rw [ha.size_pieces hp, hb.size_pieces hq]
    exact hfits.trans (by decide)
  have hparsed : Statement.Sequence (Piece.stream w (Piece.join ps qs)).tokens statements := by
    rw [hp.tokens_join]
    exact Statement.Sequence.join ha.parsed rfl (fun u hu => (hp.writable u hu).1) rfl
      (hb.parsed.down k)
  have hlabels : labels = (Piece.stream w (Piece.join ps qs)).labels := by
    rw [hp.labels_join, ha.size_pieces hp, ← ha.labels_eq, ← hb.labels_eq]
  have hmoved := hb.address_fits hq hfits
  have hencodable : ∀ s ∈ statements, s.Encodable tree labels := by
    intro s hs
    rcases List.mem_append.1 hs with hs | hs
    · exact ((ha.encodable s hs).append _).1
    · obtain ⟨u, hu, rfl⟩ := List.mem_map.1 hs
      exact ((hb.encodable u hu).moved hnames hmoved k).1
  have hadmissible := ha.admissible.join hb.admissible hdisjoint hfits'
  have hle : Statement.totalSize statements ≤ memorySize := by
    rw [totalSize_of_sequence (hp.join hq) hparsed, Piece.size_join]
    exact hfits'
  obtain ⟨i, hi⟩ := Image.exists_holds hencodable hle
  exact ⟨i, hadmissible, hparsed, hlabels, hencodable, hi⟩

end Assembled

/-- **Programs one after the other have their code one after the other.**  Two texts that are
assembled, for any instruction table, with no label defined in both and 255 bytes of code at most,
are assembled with a line feed between them.  The code is that of the first, and behind it that of
the second, in which each byte that encodes a label is larger by the size of the first and no other
byte is changed.  The labels are those of the first, and those of the second with addresses that are
larger by as much; the statements are those of the first and those of the second.  What is of the
second text stands as many lines further down as there are line feeds in front of it. -/
theorem joined_programs_join_code (ha : assemble tree w p = .ok a) (hb : assemble tree w q = .ok b)
    (hnames : (a.labels.map Label.name).Disjoint (b.labels.map Label.name))
    (hfits : a.image.codeSize + b.image.codeSize ≤ 255) :
    ∃ c, assemble tree w (p ++ '\n' :: q) = .ok c ∧
      c.image.codeSize = a.image.codeSize + b.image.codeSize ∧
      c.image.code.map UInt8.toNat = a.image.code.map UInt8.toNat ++
        relocate a.image.codeSize (b.statements.flatMap Statement.labelMarks) b.image.code ∧
      (b.statements.flatMap Statement.labelMarks).length = b.image.codeSize ∧
      c.labels = a.labels ++
        b.labels.map (Label.moved a.image.codeSize (p.count '\n' + 1)) ∧
      c.statements = a.statements ++ b.statements.map (Statement.down (p.count '\n' + 1)) := by
  obtain ⟨ps, hp, ha⟩ := assemble_eq_ok_iff.1 ha
  obtain ⟨qs, hq, hb⟩ := assemble_eq_ok_iff.1 hb
  obtain ⟨i, hc⟩ := ha.join hb hp hq hnames hfits
  have hspells := hp.join hq
  refine ⟨_, assemble_eq_ok_iff.2 ⟨_, hspells, hc⟩, ?_, ?_, ?_, rfl, rfl⟩
  · rw [← hc.size_pieces hspells, Piece.size_join, ha.size_pieces hp, hb.size_pieces hq]
  · have hmoved := hb.address_fits hq hfits
    rw [hc.image.code, ha.image.code, hb.image.code, Statement.codeOf_append, List.map_append,
      Statement.codeOf_append_labels ha.encodable,
      Statement.toNat_codeOf_moved hnames hmoved _ hb.encodable]
  · rw [Statement.length_flatMap_labelMarks, hb.codeSize_eq]

/-- A branch to the end of the first program, and a loop: behind the first program, the loop is
where the branch leads to, and branches to where it now is. -/
theorem joined_programs_join_code_loop : ∃ a b c,
    assemble .standard 4 "B e//\ne:".toList = .ok a ∧ assemble .standard 4 "s:B s".toList = .ok b ∧
    assemble .standard 4 ("B e//\ne:".toList ++ '\n' :: "s:B s".toList) = .ok c ∧
    a.image.code.map UInt8.toNat = [11, 2] ∧ b.image.code.map UInt8.toNat = [11, 0] ∧
    c.image.code.map UInt8.toNat = [11, 2, 11, 2] ∧
    c.labels.map (fun l => (l.name, l.address)) = [("e", 2), ("s", 2)] := by
  obtain ⟨a, ha, hchecked⟩ := exists_ok_of_any (x := assemble .standard 4 "B e//\ne:".toList)
    (p := fun a => decide (a.image.code.map UInt8.toNat = [11, 2] ∧ a.image.codeSize = 2 ∧
      a.labels = [⟨"e", 2, ⟨2, 1⟩⟩])) (by decide +kernel)
  obtain ⟨b, hb, hchecked'⟩ := exists_ok_of_any (x := assemble .standard 4 "s:B s".toList)
    (p := fun b => decide (b.image.code = [11, 0] ∧ b.image.codeSize = 2 ∧
      b.labels = [⟨"s", 0, ⟨1, 1⟩⟩] ∧
      b.statements.flatMap Statement.labelMarks = [false, true])) (by decide +kernel)
  obtain ⟨hcode, hsize, hlabels⟩ := of_decide_eq_true hchecked
  obtain ⟨hcode', hsize', hlabels', hmarks⟩ := of_decide_eq_true hchecked'
  have hnames : (a.labels.map Label.name).Disjoint (b.labels.map Label.name) := by
    rw [hlabels, hlabels']
    simp
  obtain ⟨c, hc, -, hjoined, -, htable, -⟩ := joined_programs_join_code ha hb hnames (by omega)
  refine ⟨a, b, c, ha, hb, hc, hcode, by rw [hcode']; rfl, ?_, ?_⟩
  · rw [hjoined, hcode, hcode', hmarks, hsize]
    rfl
  · rw [htable, hlabels, hlabels', hsize]
    rfl

end Asm256
