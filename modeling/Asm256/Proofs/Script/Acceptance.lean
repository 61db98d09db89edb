/-
The language that is assembled.

A text is assembled exactly when it renders a well-formed script, and then to
what the script says (`Script.Layout`):
* `Script.layout_of_assembled`, `Script.wellFormed_of_assembled` — from an assembly to the script;
* `Script.WellFormed.exists_assembled` — from the script to an assembly;
* `assemble_language` — both together, for each text and each tab width.
-/
import Asm256.Proofs.Assembled
import Asm256.Proofs.Instruction.TreeLookup
import Asm256.Proofs.Script.Placement
import Asm256.Proofs.Script.Rendering

namespace Asm256

variable {w : Nat} {text : List Char} {ps : List Piece} {p : Script} {a : Assembly}

/-! ### Labels by name -/

section Labels

variable {labels : LabelTable} {addresses : List (String × Nat)}

/-- Labels and addresses that agree are found alike. -/
theorem LabelTable.map_find? (name : String)
    (h : labels.map (fun l => (l.name, l.address)) = addresses.map fun e => (e.1, (e.2 : Int))) :
    (labels.find? name).map Label.address = (addresses.lookup name).map fun n => (n : Int) := by
  induction labels generalizing addresses with
  | nil =>
    obtain rfl := List.map_eq_nil_iff.1 h.symm
    rfl
  | cons l labels ih =>
    obtain ⟨⟨m, n⟩, rest, rfl, he, hrest⟩ := List.map_eq_cons_iff.1 h.symm
    obtain ⟨rfl, hn⟩ := Prod.mk.inj he
    have htail := ih hrest.symm
    by_cases hname : l.name = name
    · simp [LabelTable.find?, hname, ← hn]
    · have hbeq : (name == l.name) = false := beq_eq_false_iff_ne.2 (Ne.symm hname)
      rw [List.lookup_cons, hbeq, ← htail]
      simp [LabelTable.find?, hname]

theorem Script.map_fst_addressesFrom (n : Nat) (p : Script) :
    (addressesFrom n p).map Prod.fst = p.names := by
  induction p generalizing n with
  | nil => rfl
  | cons l p ih =>
    rw [addressesFrom, List.map_append, ih, List.map_map]
    simp [Function.comp_def, names]

/-- A name is found when it is that of a label. -/
theorem LabelTable.exists_find?_iff {name : String} :
    (∃ l, labels.find? name = some l) ↔ name ∈ labels.map Label.name := by
  rw [← Option.isSome_iff_exists, LabelTable.find?, List.find?_isSome, List.mem_map]
  simp

end Labels

theorem Statement.kinds_instruction (s : Statement) : s.instruction.kinds = s.kinds := by
  rw [Instruction.kinds, instruction, List.map_map]
  rfl

/-! ### Words of a text -/

/-- A label definition and the end of the input are not written as tokens. -/
theorem Item.Spelling.ne_token {i : Item} {rest : List Char} (h : i.Spelling text rest) :
    i ≠ .token .labelDefinition ∧ i ≠ .token .endOfInput := by
  cases h <;> simp

theorem Item.Spelling.labelName {name : String} {rest : List Char}
    (h : (Item.definition name).Spelling text rest) : LabelName name := by
  cases h with
  | definition hn => exact hn

namespace Piece

theorem Spells.exists_spelling (h : Spells ps text) :
    ∀ i ∈ items ps, ∃ text rest, i.Spelling text rest := by
  have hpiece : ∀ q ∈ ps, ∃ rest, q.item.Spelling q.text rest := by
    induction h with
    | nil => simp
    | cons hq _ ih => exact List.forall_mem_cons.2 ⟨⟨_, hq⟩, ih⟩
  intro i hi
  obtain ⟨hi, -⟩ := List.mem_filter.1 hi
  obtain ⟨q, hq, rfl⟩ := List.mem_map.1 hi
  exact ⟨q.text, hpiece q hq⟩

/-- The names that a text defines are names of labels. -/
theorem Spells.labelName (h : Spells ps text) : ∀ name ∈ names ps, Item.LabelName name := by
  intro name hname
  obtain ⟨i, hi, heq⟩ := List.mem_filterMap.1 hname
  obtain ⟨text, rest, hspelling⟩ := h.exists_spelling i hi
  cases i with
  | definition m =>
    cases heq
    exact hspelling.labelName
  | gap | token word => cases heq

end Piece

namespace Script

/-- The labels of a text have the addresses that its script has for them. -/
theorem Spelled.map_labels (hp : Spelled p (Piece.items ps)) (w : Nat) :
    (Piece.stream w ps).labels.map (fun l => (l.name, l.address)) =
      p.addresses.map fun e => (e.1, (e.2 : Int)) := by
  refine (Piece.map_labels w .start 0 ps).trans ?_
  rw [hp.addressesFrom]
  rfl

theorem Spelled.map_name (hp : Spelled p (Piece.items ps)) (w : Nat) :
    (Piece.stream w ps).labels.map Label.name = p.names := by
  have heq := congrArg (List.map Prod.fst) (hp.map_labels w)
  rw [List.map_map, List.map_map] at heq
  exact heq.trans (map_fst_addressesFrom 0 p)

/-- The tokens of a text follow the grammar if its items spell a script, whose instructions are
those of the statements. -/
theorem Spelled.exists_sequence (hp : Spelled p (Piece.items ps)) (w : Nat) :
    ∃ ss, Statement.Sequence (Piece.stream w ps).tokens ss ∧
      ss.map Statement.instruction = p.instructions :=
  hp.sequence (e := ⟨.endOfInput, "", Piece.finish w .start ps⟩) rfl
    (Piece.map_tokens w .start ps).symm

/-! ### From an assembly to a script -/

section Sound

variable (hs : Piece.Spells ps text) (hp : Spelled p (Piece.items ps))
  (h : Assembled .standard w ps a)
  (hinst : a.statements.map Statement.instruction = p.instructions)

include hp h in
/-- The bytes of a statement are those of its instruction. -/
theorem encoded_of_assembled {s : Statement} (hmem : s ∈ a.statements) :
    s.instruction.Encoded p.addresses (s.code .standard a.labels) := by
  obtain ⟨op, hop⟩ := Option.isSome_iff_exists.1 (h.encodable s hmem).1
  refine ⟨op, ?_, ?_⟩
  · rw [s.kinds_instruction]
    exact SignatureTree.find?_standard_iff.1 hop
  · rw [Statement.Encodable.code_eq hop]
    refine congrArg _ ?_
    rw [Statement.instruction, List.map_map]
    refine List.map_congr_left fun o ho => ?_
    obtain ⟨value, lexeme, pos⟩ := o
    -- only the byte of a label depends on the table
    cases value with
    | label name =>
      have hfind := LabelTable.map_find? name (hp.map_labels w)
      rw [← h.labels_eq] at hfind
      simp only [Function.comp_apply, Operand.resolve, Operand.codeByte, hfind]
      cases p.addresses.lookup name <;> rfl
    | register n | memory n | literal n => rfl

include hs hp h in
theorem size_of_assembled : a.image.codeSize = p.size := by
  rw [h.codeSize_eq, totalSize_of_sequence hs h.parsed, Piece.size_items, hp.size]

include hs hp h hinst in
/-- An assembled text is laid out as the script that it renders. -/
theorem layout_of_assembled : p.Layout a where
  statements := hinst
  labels := h.labels_eq ▸ hp.map_labels w
  codeSize := size_of_assembled hs hp h
  memory := by
    refine ⟨a.statements.map (Statement.code .standard a.labels), ?_, ?_⟩
    · rw [← hinst, List.forall₂_map_left_iff, List.forall₂_map_right_iff, List.forall₂_same]
      exact fun s hmem => encoded_of_assembled hp h hmem
    · rw [← size_of_assembled hs hp h, h.image.codeSize]
      exact h.image.memory

include hs hp h hinst in
/-- The script of an assembled text is well-formed. -/
theorem wellFormed_of_assembled : p.WellFormed := by
  have hnames : Piece.names ps = p.names := hp.names
  obtain ⟨-, hnodup, -, -⟩ := (Piece.admissible_iff (Nat.zero_le _)).1 h.admissible
  have hstatement : ∀ i ∈ p.instructions, ∃ s ∈ a.statements, s.instruction = i := by
    intro i hi
    rw [← hinst] at hi
    exact List.mem_map.1 hi
  have hoperand : ∀ {s : Statement} {o : Operand}, o ∈ s.instruction.operands →
      ∃ o' ∈ s.operands, o'.value = o := fun ho => List.mem_map.1 ho
  refine ⟨hnames ▸ hnodup, hnames ▸ hs.labelName, fun i hi => ?_, fun i hi o ho => ?_,
    fun i hi name ho => ?_, ?_⟩
  · obtain ⟨s, hmem, rfl⟩ := hstatement i hi
    obtain ⟨op, hop, -⟩ := encoded_of_assembled hp h hmem
    exact ⟨op, hop⟩
  · obtain ⟨s, hmem, rfl⟩ := hstatement i hi
    obtain ⟨o', ho', rfl⟩ := hoperand ho
    exact h.writable hs s hmem o' ho'
  · obtain ⟨s, hmem, rfl⟩ := hstatement i hi
    obtain ⟨o', ho', hvalue⟩ := hoperand ho
    rw [← hp.map_name w, ← h.labels_eq]
    exact LabelTable.exists_find?_iff.1 ((h.encodable s hmem).2 o' ho' name hvalue)
  · rw [← size_of_assembled hs hp h]
    exact a.image.codeSize_le

end Sound

/-- The items of an assembled text spell a script with the instructions of its statements. -/
theorem exists_of_assembled {tree : SignatureTree} (hs : Piece.Spells ps text)
    (h : Assembled tree w ps a) : ∃ p, Spelled p (Piece.items ps) ∧
      a.statements.map Statement.instruction = p.instructions := by
  have hitem : ∀ i ∈ Piece.items ps, i ≠ .token .labelDefinition ∧ i ≠ .token .endOfInput := by
    intro i hi
    obtain ⟨text, rest, hspelling⟩ := hs.exists_spelling i hi
    exact hspelling.ne_token
  have hwords : (Piece.items ps ++ [Item.token .endOfInput]).map Item.word? =
      (Piece.stream w ps).tokens.map fun t => some t.value := by
    rw [Piece.stream, List.map_append, List.map_append, Piece.map_tokens]
    rfl
  -- the items in front of the end of the input are all items of the text
  obtain ⟨l, p, hp, hinst⟩ := spelled_of_sequence h.parsed hwords fun i hi => by
    rcases List.mem_append.1 hi with hi | hi
    · exact (hitem i hi).1
    · rw [List.mem_singleton.1 hi]
      simp
  rw [Item.untilEnd_append fun i hi => (hitem i hi).2, Item.untilEnd_end, List.append_nil] at hp
  exact ⟨l :: p, hp, hinst.symm⟩

/-! ### From a script to an assembly -/

section Complete

variable (hw : p.WellFormed) (hs : Piece.Spells ps text) (hp : Spelled p (Piece.items ps))

include hw hp in
theorem WellFormed.admissible : Piece.Admissible w {} ps := by
  refine (Piece.admissible_iff (Nat.zero_le _)).2 ⟨?_, ?_, fun name _ => rfl, hp.placed⟩
  · rw [Piece.size_items, hp.size]
    have hle := hw.size_le
    show 0 + p.size ≤ memorySize
    omega
  · rw [Piece.names, hp.names]
    exact hw.nodup

include hw hp in
/-- The statements of a well-formed script have encodings. -/
theorem WellFormed.encodable {s : Statement} (hmem : s.instruction ∈ p.instructions) :
    s.Encodable .standard (Piece.stream w ps).labels := by
  refine ⟨?_, fun o ho name hname => ?_⟩
  · obtain ⟨op, hop⟩ := hw.signature _ hmem
    rw [s.kinds_instruction] at hop
    exact Option.isSome_iff_exists.2 ⟨op, SignatureTree.find?_standard_iff.2 hop⟩
  · have hoperand : .label name ∈ s.instruction.operands := List.mem_map.2 ⟨o, ho, hname⟩
    have hdefined := hw.defined _ hmem name hoperand
    rw [← hp.map_name w] at hdefined
    exact LabelTable.exists_find?_iff.2 hdefined

include hw hs hp in
/-- A text that renders a well-formed script has an assembly. -/
theorem WellFormed.exists_assembled (w : Nat) : ∃ a, Assembled .standard w ps a ∧
    a.statements.map Statement.instruction = p.instructions := by
  obtain ⟨ss, hss, hinst⟩ := hp.exists_sequence w
  have hencodable : ∀ s ∈ ss, s.Encodable .standard (Piece.stream w ps).labels := by
    intro s hmem
    refine hw.encodable hp ?_
    rw [← hinst]
    exact List.mem_map_of_mem hmem
  have hsize : Statement.totalSize ss = p.size := by
    rw [totalSize_of_sequence hs hss, Piece.size_items, hp.size]
  have hfits : Statement.totalSize ss ≤ memorySize := hsize ▸ hw.size_le
  obtain ⟨i, hi⟩ := Image.exists_holds hencodable hfits
  exact ⟨⟨i, (Piece.stream w ps).labels, ss⟩, ⟨hw.admissible hp, hss, rfl, hencodable, hi⟩, hinst⟩

end Complete

end Script

/-- A text that renders a well-formed script is assembled as the script says. -/
theorem Script.WellFormed.assemble (hw : p.WellFormed) (hr : p.Rendering text) (w : Nat) :
    ∃ a, Asm256.assemble .standard w text = .ok a ∧ p.Layout a := by
  obtain ⟨ps, hs, hp⟩ := hr
  obtain ⟨a, h, hinst⟩ := hw.exists_assembled hs hp w
  exact ⟨a, assemble_eq_ok_iff.2 ⟨ps, hs, h⟩, Script.layout_of_assembled hs hp h hinst⟩

/-- A text that is assembled renders a well-formed script, and is laid out as the script says. -/
theorem exists_script_of_assemble (h : assemble .standard w text = .ok a) :
    ∃ p : Script, p.WellFormed ∧ p.Rendering text ∧ p.Layout a := by
  obtain ⟨ps, hs, h⟩ := assemble_eq_ok_iff.1 h
  obtain ⟨p, hp, hinst⟩ := Script.exists_of_assembled hs h
  exact ⟨p, Script.wellFormed_of_assembled hs hp h hinst, ⟨ps, hs, hp⟩,
    Script.layout_of_assembled hs hp h hinst⟩

/-- **The language that is assembled.**  Texts that are written word by word from a well-formed
script are assembled, and so are all that render one, as the script says; no other text is. -/
theorem assemble_language (w : Nat) :
    (∀ (p : Script) (text : List Char), p.WellFormed → p.Written text →
      ∃ a, assemble .standard w text = .ok a ∧ p.Layout a) ∧
    (∀ (p : Script) (text : List Char), p.WellFormed → p.Rendering text →
      ∃ a, assemble .standard w text = .ok a ∧ p.Layout a) ∧
    ∀ (text : List Char) (a : Assembly), assemble .standard w text = .ok a →
      ∃ p : Script, p.WellFormed ∧ p.Rendering text ∧ p.Layout a := by
  refine ⟨?_, ?_, ?_⟩
  · -- what is written word by word is rendered
    intro p text hw ht
    exact hw.assemble ht.rendering w
  · intro p text hw hr
    exact hw.assemble hr w
  · intro text a h
    exact exists_script_of_assemble h

/-- A branch to a label behind it, with a comment on its line. -/
theorem assemble_language_forward_branch :
    ∃ (p : Script) (a : Assembly), p.WellFormed ∧ p.Written "B e//!\ne: HALT".toList ∧
      assemble .standard 4 "B e//!\ne: HALT".toList = .ok a ∧ p.Layout a := by
  have hname : Item.LabelName "e" :=
    ⟨by decide, List.all_eq_true.1 (by decide), fun m => by cases m <;> decide, by decide⟩
  have hgap : Script.Gap [' '] := .blank (by decide) (by decide) .nil
  have hstops : ∀ q, Text.Stops q [] := fun q c hc => by cases hc
  let branch : Line := ⟨[], some ⟨.b, [.label "e"]⟩⟩
  let halt : Line := ⟨["e"], some ⟨.halt, []⟩⟩
  have hbranch : Script.Spaced branch.items ("B".toList ++ ([' '] ++ "e".toList)) :=
    .cons (.mnemonic (hstops _)) hgap (by decide) (.last (.label hname (hstops _) (by decide)))
  have hhalt : Script.Spaced halt.items (("e".toList ++ [':']) ++ ([' '] ++ "HALT".toList)) :=
    .cons (.definition hname) hgap (by decide) (.last (.mnemonic (hstops _)))
  have hwritten : Script.Written [branch, halt] "B e//!\ne: HALT".toList := by
    have hremark : Script.Remark ['/', '/', '!'] := .comment (by decide)
    have hlines : Script.Written [branch, halt] _ :=
      .line .nil hbranch (.newline hremark) (.last .nil hhalt .none)
    exact hlines
  have hw : Script.WellFormed [branch, halt] := by
    have hinst : Script.instructions [branch, halt] = [⟨.b, [.label "e"]⟩, ⟨.halt, []⟩] := rfl
    refine ⟨by decide, ?_, ?_, ?_, ?_, by decide⟩
    · simpa [Script.names, branch, halt] using hname
    · rw [hinst]
      exact List.forall_mem_cons.2 ⟨⟨.b, by decide⟩, List.forall_mem_singleton.2 ⟨.halt, by decide⟩⟩
    · simp [hinst, Operand.Writable, hname]
    · simp [hinst, Script.names, branch, halt]
  obtain ⟨a, ha, hlayout⟩ := (assemble_language 4).1 _ _ hw hwritten
  exact ⟨_, a, hw, hwritten, ha, hlayout⟩

end Asm256
