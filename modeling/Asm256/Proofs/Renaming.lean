/-
Programs with labels renamed.

A label is found by its name, wherever it is defined, so a program means the same with other names
for its labels if different labels get different names:
* `Script.Spelled.rename` — the script of a text with labels renamed;
* `LabelTable.find?_renamed` — the label of a new name is that of the name it stands for;
* `Statement.Encodable.renamed` — a statement keeps its bytes;
* `Assembled.rename` — and a program its image.

The main result is `label_names_do_not_matter`.
-/
import Asm256.Proofs.Script.Acceptance
import Asm256.Proofs.Source.Renaming

namespace Asm256

variable {f : String → String}

/-! ### Scripts with labels renamed -/

/-- The instruction with other names for its operands that are labels. -/
def Instruction.rename (f : String → String) (i : Instruction) : Instruction :=
  ⟨i.mnemonic, i.operands.map (Operand.rename f)⟩

/-- The line with other names for its labels. -/
def Line.rename (f : String → String) (l : Line) : Line :=
  ⟨l.labels.map f, l.instruction.map (Instruction.rename f)⟩

/-- The script with other names for its labels. -/
def Script.rename (f : String → String) (p : Script) : Script := p.map (Line.rename f)

theorem Operand.kind_rename (f : String → String) (o : Operand) : (o.rename f).kind = o.kind := by
  cases o <;> rfl

theorem Instruction.kinds_rename (f : String → String) (i : Instruction) :
    (i.rename f).kinds = i.kinds := by
  rw [kinds, rename, List.map_map]
  exact List.map_congr_left fun o _ => o.kind_rename f

theorem Instruction.words_rename (f : String → String) (i : Instruction) :
    (i.rename f).words = i.words.map (Word.rename f) := by
  obtain ⟨m, os⟩ := i
  cases os with
  | nil => rfl
  | cons o os =>
    rw [rename, List.map_cons, words_cons, words_cons, List.map_cons, List.map_cons,
      List.flatMap_map, List.map_flatMap]
    rfl

theorem Line.items_rename (f : String → String) (l : Line) :
    (l.rename f).items = l.items.map (Item.rename f) := by
  obtain ⟨labels, instruction⟩ := l
  have hlabels : (labels.map f).map Item.definition =
      (labels.map Item.definition).map (Item.rename f) := by
    rw [List.map_map, List.map_map]
    rfl
  have hwords : ∀ words : List Word,
      (words.map (Word.rename f)).map Item.token = (words.map Item.token).map (Item.rename f) := by
    intro words
    rw [List.map_map, List.map_map]
    rfl
  have hinstruction : (instruction.map (Instruction.rename f)).toList.flatMap Instruction.words =
      (instruction.toList.flatMap Instruction.words).map (Word.rename f) := by
    cases instruction with
    | none => rfl
    | some i =>
      show (i.rename f).words ++ [] = (i.words ++ []).map (Word.rename f)
      rw [List.append_nil, List.append_nil, i.words_rename]
  rw [items, items, List.map_append, rename, hlabels, hinstruction, hwords]

theorem Instruction.mem_operands {i : Instruction} {o : Operand} (h : .operand o ∈ i.words) :
    o ∈ i.operands := by
  obtain ⟨m, os⟩ := i
  cases os with
  | nil => simp [words] at h
  | cons o' os =>
    rw [words_cons] at h
    simpa using h

theorem Line.exists_instruction {l : Line} {o : Operand} (h : .token (.operand o) ∈ l.items) :
    ∃ i, l.instruction = some i ∧ o ∈ i.operands := by
  rw [items, List.mem_append, List.mem_map, List.mem_map] at h
  rcases h with ⟨name, -, hname⟩ | ⟨word, hword, heq⟩
  · cases hname
  · cases heq
    obtain ⟨i, hi, hmem⟩ := List.mem_flatMap.1 hword
    exact ⟨i, Option.mem_toList.1 hi, Instruction.mem_operands hmem⟩

namespace Script

variable {p : Script} {is : List Item}

/-- **The items of a script with labels renamed** are its items with labels renamed. -/
theorem Spelled.rename (h : Spelled p is) (f : String → String) :
    Spelled (p.rename f) (is.map (Item.rename f)) := by
  induction h with
  | nil => exact .nil
  | last l =>
    rw [← l.items_rename]
    exact .last (l.rename f)
  | @line l d p is hd _ ih =>
    have hdelimiter : Item.rename f (.token d) = .token d := by
      cases d with
      | operand o => cases hd
      | _ => rfl
    rw [List.map_append, List.map_cons, ← l.items_rename, hdelimiter]
    exact .line (l.rename f) hd ih

/-- An operand among the items of a script is that of an instruction. -/
theorem Spelled.exists_instruction {o : Operand} (h : Spelled p is)
    (ho : .token (.operand o) ∈ is) : ∃ i ∈ p.instructions, o ∈ i.operands := by
  have hline : ∀ (l : Line) (p : Script), .token (.operand o) ∈ l.items →
      ∃ i ∈ Script.instructions (l :: p), o ∈ i.operands := by
    intro l p hmem
    obtain ⟨i, hi, ho⟩ := l.exists_instruction hmem
    exact ⟨i, List.mem_filterMap.2 ⟨l, List.mem_cons_self, hi⟩, ho⟩
  induction h with
  | nil => cases ho
  | last l => exact hline l [] ho
  | @line l d p is hd _ ih =>
    rw [List.mem_append, List.mem_cons] at ho
    rcases ho with ho | ho | ho
    · exact hline l p ho
    · cases ho
      cases hd
    · obtain ⟨i, hi, ho⟩ := ih ho
      obtain ⟨l', hl', hl⟩ := List.mem_filterMap.1 hi
      exact ⟨i, List.mem_filterMap.2 ⟨l', List.mem_cons_of_mem _ hl', hl⟩, ho⟩

theorem instructions_rename (f : String → String) (p : Script) :
    (p.rename f).instructions = p.instructions.map (Instruction.rename f) := by
  rw [instructions, instructions, rename, List.filterMap_map, List.map_filterMap]
  rfl

end Script

theorem Script.addressesFrom_rename (f : String → String) (p : Script) (n : Nat) :
    (p.rename f).addressesFrom n = (p.addressesFrom n).map fun e => (f e.1, e.2) := by
  induction p generalizing n with
  | nil => rfl
  | cons l p ih =>
    have hsize : (l.rename f).size = l.size := by
      obtain ⟨labels, _ | i⟩ := l
      · rfl
      · show 1 + (i.operands.map (Operand.rename f)).length = 1 + i.operands.length
        rw [List.length_map]
    show (l.labels.map f).map _ ++ addressesFrom (n + (l.rename f).size) (Script.rename f p) = _
    rw [hsize, ih, addressesFrom, List.map_append, List.map_map, List.map_map]
    rfl

/-! ### Labels by their new names -/

/-- The table has the same addresses in the same order, for the new names. -/
def LabelTable.Renamed (f : String → String) (labels labels' : LabelTable) : Prop :=
  labels'.map (fun l => (l.name, l.address)) = labels.map fun l => (f l.name, l.address)

section Labels

variable {labels labels' : LabelTable} {name : String} {l : Label} {o : Operand}
  (hl : labels.Renamed f labels')
  (hinj : Set.InjOn f {name | name ∈ labels.map Label.name})

include hl hinj

/-- **The label of a new name** is that of the name it stands for. -/
theorem LabelTable.find?_renamed (h : labels.find? name = some l) :
    ∃ l', labels'.find? (f name) = some l' ∧ l'.address = l.address := by
  have hmem : name ∈ labels.map Label.name := exists_find?_iff.1 ⟨l, h⟩
  -- the induction takes labels from both tables, which are compared with `name` throughout
  have hsame : ∀ k ∈ labels, f k.name = f name → k.name = name := by
    intro k hk heq
    exact hinj (List.mem_map_of_mem hk) hmem heq
  clear hinj hmem
  induction labels generalizing labels' with
  | nil => cases h
  | cons k labels ih =>
    obtain ⟨k', rest', rfl, hk, hrest⟩ := List.map_eq_cons_iff.1 hl
    obtain ⟨hname, haddress⟩ := Prod.mk.inj hk
    rw [List.forall_mem_cons] at hsame
    unfold LabelTable.find? at h ih ⊢
    by_cases hkn : k.name = name
    · rw [List.find?_cons_of_pos (by simpa using hkn)] at h
      cases h
      refine ⟨k', List.find?_cons_of_pos ?_, haddress⟩
      simp [hname, hkn]
    · rw [List.find?_cons_of_neg (by simpa using hkn)] at h
      rw [List.find?_cons_of_neg (by simpa [hname] using mt hsame.1 hkn)]
      exact ih hrest h hsame.2

/-- A label with its new name is resolved as it was, and other operands are no matter of labels. -/
theorem Operand.Resolves.renamed (h : o.Resolves labels) :
    (o.rename f).Resolves labels' ∧ (o.rename f).resolve labels' = o.resolve labels := by
  cases o with
  | label name =>
    obtain ⟨l, hfound⟩ := h name rfl
    obtain ⟨l', hfound', haddress⟩ := LabelTable.find?_renamed hl hinj hfound
    refine ⟨fun m hm => ?_, ?_⟩
    · cases hm
      exact ⟨l', hfound'⟩
    · rw [Operand.rename, resolve, resolve, hfound, hfound', Option.map_some, Option.map_some,
        haddress]
  | register n | memory n | literal n =>
    refine ⟨fun m hm => ?_, rfl⟩
    cases hm

/-- **A statement with labels renamed has the same bytes.** -/
theorem Statement.Encodable.renamed {tree : SignatureTree} {s s' : Statement}
    (h : s.Encodable tree labels) (hs : s'.instruction = s.instruction.rename f) :
    s'.Encodable tree labels' ∧ s'.code tree labels' = s.code tree labels := by
  obtain ⟨hfind, hresolves⟩ := h
  obtain ⟨hmnemonic, hoperands⟩ := Instruction.mk.inj hs
  have hkinds : s'.kinds = s.kinds := by
    rw [← s'.kinds_instruction, hs, Instruction.kinds_rename, s.kinds_instruction]
  have hfind' : tree.find? s'.mnemonic.value s'.kinds = tree.find? s.mnemonic.value s.kinds :=
    congrArg₂ tree.find? hmnemonic hkinds
  have hoperands' : s'.operands.map Spelled.value = s.operands.map fun o => o.value.rename f := by
    rw [hoperands, instruction, List.map_map]
    rfl
  have hcode : s'.operands.map (fun o => Byte.wrap (o.value.resolve labels')) =
      s.operands.map fun o => Byte.wrap (o.value.resolve labels) := by
    have hvalues := congrArg (List.map fun o => Byte.wrap (o.resolve labels')) hoperands'
    rw [List.map_map, List.map_map] at hvalues
    refine Eq.trans hvalues (List.map_congr_left fun o ho => congrArg Byte.wrap ?_)
    exact ((hresolves o ho).renamed hl hinj).2
  refine ⟨⟨?_, fun o' ho' => ?_⟩, ?_⟩
  · rwa [hfind']
  · have hmem : o'.value ∈ s'.operands.map Spelled.value := List.mem_map_of_mem ho'
    rw [hoperands'] at hmem
    obtain ⟨o, ho, hvalue⟩ := List.mem_map.1 hmem
    rw [← hvalue]
    exact ((hresolves o ho).renamed hl hinj).1
  · rw [code, code, hfind', hcode]

/-- **Statements with labels renamed have the same code.** -/
theorem Statement.codeOf_renamed {tree : SignatureTree} {ss ss' : List Statement}
    (h : ∀ s ∈ ss, s.Encodable tree labels)
    (hss : ss'.map instruction = ss.map fun s => s.instruction.rename f) :
    (∀ s ∈ ss', s.Encodable tree labels') ∧ codeOf tree labels' ss' = codeOf tree labels ss := by
  induction ss generalizing ss' with
  | nil =>
    obtain rfl := List.map_eq_nil_iff.1 hss
    exact ⟨by simp, rfl⟩
  | cons s ss ih =>
    obtain ⟨s', rest', rfl, hs, hrest⟩ := List.map_eq_cons_iff.1 hss
    rw [List.forall_mem_cons] at h
    obtain ⟨hencodable, hcode⟩ := h.1.renamed hl hinj hs
    obtain ⟨hencodables, hcodes⟩ := ih h.2 hrest
    exact ⟨List.forall_mem_cons.2 ⟨hencodable, hencodables⟩, by
      rw [codeOf_cons, codeOf_cons, hcode, hcodes]⟩

end Labels

/-! ### Assemblies with labels renamed -/

namespace Assembled

variable {tree : SignatureTree} {w : Nat} {text : List Char} {ps : List Piece} {a : Assembly}

/-- The labels of an assembled text are defined in it, those that are operands too. -/
theorem mem_names (h : Assembled tree w ps a) (hs : Piece.Spells ps text) {q : Piece} (hq : q ∈ ps)
    {name : String} (hname : name ∈ q.item.label?) : name ∈ a.labels.map Label.name := by
  obtain ⟨p, hp, hinst⟩ := Script.exists_of_assembled hs h
  have hitem : q.item.word?.isSome → q.item ∈ Piece.items ps := by
    intro hword
    exact List.mem_filter.2 ⟨List.mem_map_of_mem hq, hword⟩
  rw [h.labels_eq, hp.map_name w]
  generalize q.item = i at hname hitem
  cases i with
  | gap => cases hname
  | definition m =>
    cases hname
    rw [← hp.names]
    exact List.mem_filterMap.2 ⟨_, hitem rfl, rfl⟩
  | token word =>
    cases word with
    | operand o =>
      obtain ⟨i, hi, ho⟩ := hp.exists_instruction (hitem rfl)
      rw [← hinst] at hi
      obtain ⟨s, hmem, rfl⟩ := List.mem_map.1 hi
      obtain ⟨o', ho', rfl⟩ := List.mem_map.1 ho
      cases hvalue : o'.value with
      | label m =>
        rw [hvalue] at hname
        cases hname
        rw [← hp.map_name w, ← h.labels_eq]
        exact LabelTable.exists_find?_iff.1 ((h.encodable s hmem).2 o' ho' name hvalue)
      | register n | memory n | literal n =>
        rw [hvalue] at hname
        cases hname
    | _ => cases hname

/-- **A program with labels renamed is assembled to the same image.** -/
theorem rename (h : Assembled tree w ps a) (hs : Piece.Spells ps text)
    (hinj : Set.InjOn f {name | name ∈ a.labels.map Label.name}) (w' : Nat) :
    ∃ a', Assembled tree w' (ps.map (Piece.rename f)) a' ∧ a'.image = a.image ∧
      a.labels.Renamed f a'.labels ∧
      a'.statements.map Statement.instruction =
        a.statements.map fun s => s.instruction.rename f := by
  obtain ⟨p, hp, hinst⟩ := Script.exists_of_assembled hs h
  have hp' : Script.Spelled (p.rename f) (Piece.items (ps.map (Piece.rename f))) := by
    rw [Piece.items_rename]
    exact hp.rename f
  obtain ⟨ss, hss, hinst'⟩ := hp'.exists_sequence w'
  have hstatements : ss.map Statement.instruction =
      a.statements.map fun s => s.instruction.rename f := by
    rw [hinst', Script.instructions_rename, ← hinst, List.map_map]
    rfl
  have hlabels : a.labels.Renamed f (Piece.stream w' (ps.map (Piece.rename f))).labels := by
    show List.map _ _ = _
    rw [hp'.map_labels w', h.labels_eq]
    have hnamed := congrArg (List.map fun e : String × Int => (f e.1, e.2)) (hp.map_labels w)
    rw [List.map_map] at hnamed
    refine Eq.trans ?_ hnamed.symm
    rw [Script.addresses, Script.addressesFrom_rename, List.map_map, List.map_map]
    rfl
  obtain ⟨hencodable, hcode⟩ := Statement.codeOf_renamed hlabels hinj h.encodable hstatements
  have hadmissible : Piece.Admissible w' {} (ps.map (Piece.rename f)) := by
    obtain ⟨hsize, hnodup, -, -⟩ := (Piece.admissible_iff (Nat.zero_le _)).1 h.admissible
    refine (Piece.admissible_iff (Nat.zero_le _)).2 ⟨?_, ?_, fun name _ => rfl, hp'.placed⟩
    · rwa [Piece.size_rename]
    · have hnames : Piece.names ps = a.labels.map Label.name := by
        rw [h.labels_eq, hp.map_name w]
        exact hp.names
      rw [Piece.names_rename]
      rw [← hnames] at hinj
      exact hnodup.map_on hinj
  refine ⟨⟨a.image, (Piece.stream w' (ps.map (Piece.rename f))).labels, ss⟩,
    ⟨hadmissible, hss, rfl, hencodable, ?_⟩, rfl, hlabels, hstatements⟩
  rw [hcode]
  exact h.image

end Assembled

/-- **Label names do not matter.**  A text that is assembled, for any instruction table, is assembled
with other names for its labels, when these may be names of labels and different labels get different
ones.  The text with labels renamed is cut into the same pieces with labels renamed; the image is the
same, the labels have the new names for the same addresses in the same order, and the statements are
the same with labels renamed. -/
theorem label_names_do_not_matter {tree : SignatureTree} {w : Nat} {text : List Char}
    {a : Assembly} (h : assemble tree w text = .ok a)
    (hinj : Set.InjOn f {name | name ∈ a.labels.map Label.name})
    (hname : ∀ l ∈ a.labels, Item.LabelName (f l.name)) (w' : Nat) :
    ∃ a', assemble tree w' (Text.renameLabels f text) = .ok a' ∧ a'.image = a.image ∧
      a'.labels.map (fun l => (l.name, l.address)) =
        a.labels.map (fun l => (f l.name, l.address)) ∧
      a'.statements.map Statement.instruction =
        a.statements.map (fun s => s.instruction.rename f) ∧
      Piece.cut (Text.renameLabels f text) = ((Piece.cut text).1.map (Piece.rename f), none) := by
  obtain ⟨ps, hs, ha⟩ := assemble_eq_ok_iff.1 h
  have hpieces : ∀ q ∈ ps, ∀ name ∈ q.item.label?, Item.LabelName (f name) := by
    intro q hq name hlabel
    obtain ⟨l, hl, rfl⟩ := List.mem_map.1 (ha.mem_names hs hq hlabel)
    exact hname l hl
  have hspells := hs.rename hpieces
  obtain ⟨a', ha', himage, hlabels, hstatements⟩ := ha.rename hs hinj w'
  rw [Text.renameLabels, hs.cut]
  exact ⟨a', assemble_eq_ok_iff.2 ⟨_, hspells, ha'⟩, himage, hlabels, hstatements, hspells.cut⟩

/-- Two labels exchange their names, and a comment keeps what is in it. -/
theorem label_names_do_not_matter_exchanged :
    let text := "a:B/*a*/b//b\nHALT;b:B a".toList
    let text' := "b:B/*a*/a//b\nHALT;a:B b".toList
    ∃ a a', assemble .standard 4 text = .ok a ∧ assemble .standard 8 text' = .ok a' ∧
      a'.image = a.image ∧
      a.labels.map (fun l => (l.name, l.address)) = [("a", 0), ("b", 3)] ∧
      a'.labels.map (fun l => (l.name, l.address)) = [("b", 0), ("a", 3)] := by
  intro text text'
  let f : String → String := fun name => if name = "a" then "b" else "a"
  obtain ⟨a, ha, hchecked⟩ := exists_ok_of_any (x := assemble .standard 4 text)
    (p := fun a => decide (a.labels.map (fun l => (l.name, l.address)) = [("a", 0), ("b", 3)]))
    (by decide +kernel)
  have htable := of_decide_eq_true hchecked
  have hnames : a.labels.map Label.name = ["a", "b"] := by
    have hmap := congrArg (List.map Prod.fst) htable
    rwa [List.map_map] at hmap
  have hinj : Set.InjOn f {name | name ∈ a.labels.map Label.name} := by
    rw [hnames]
    intro m hm n hn heq
    simp only [List.mem_cons, List.not_mem_nil, or_false, Set.mem_ofPred_eq] at hm hn
    rcases hm with rfl | rfl <;> rcases hn with rfl | rfl
    · rfl
    · exact absurd heq (by decide)
    · exact absurd heq (by decide)
    · rfl
  have hname : ∀ l ∈ a.labels, Item.LabelName (f l.name) := by
    intro l hl
    have hmem : l.name ∈ a.labels.map Label.name := List.mem_map_of_mem hl
    rw [hnames, List.mem_cons, List.mem_singleton] at hmem
    rcases hmem with hmem | hmem <;> rw [hmem]
    · exact ⟨by decide, List.all_eq_true.1 (by decide), fun m => by cases m <;> decide, by decide⟩
    · exact ⟨by decide, List.all_eq_true.1 (by decide), fun m => by cases m <;> decide, by decide⟩
  obtain ⟨a', ha', himage, hlabels, -⟩ := label_names_do_not_matter ha hinj hname 8
  have hrenamed : Text.renameLabels f text = text' := by decide +kernel
  rw [hrenamed] at ha'
  refine ⟨a, a', ha, ha', himage, htable, hlabels.trans ?_⟩
  have hmap := congrArg (List.map fun e : String × Int => (f e.1, e.2)) htable
  rw [List.map_map] at hmap
  exact hmap

end Asm256
