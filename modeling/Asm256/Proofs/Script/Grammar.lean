/-
Token sequences are spelled scripts.

The tokens of a text follow the grammar of statements exactly when its items
spell a script, which then has the same instructions:
* `Script.spelled_of_sequence` — statements have a script, which their items spell;
* `Script.Spelled.sequence` — the tokens of a script's items form statements.
-/
import Asm256.Proofs.Script.Items
import Asm256.Proofs.Script.Line

namespace Asm256

open Statement (FurtherOperands Tokens Sequence)

/-! ### The words of an instruction -/

namespace Instruction

theorem intersperse_cons {α : Type} (c a : α) (as : List α) :
    (a :: as).intersperse c = a :: as.flatMap fun b => [c, b] := by
  induction as generalizing a with
  | nil => rfl
  | cons b as ih => rw [List.intersperse_cons_cons, ih]; rfl

theorem words_cons (m : Mnemonic) (o : Operand) (os : List Operand) : words ⟨m, o :: os⟩ =
    .mnemonic m :: .operand o :: os.flatMap fun o => [.comma, .operand o] := by
  rw [words, List.map_cons, intersperse_cons, List.flatMap_map]

variable {s : Statement} {us : List Token}

theorem map_value_of_furtherOperands {os : List (Spelled Operand)} (h : FurtherOperands os us) :
    us.map Spelled.value = (os.map Spelled.value).flatMap fun o => [.comma, .operand o] := by
  induction h with
  | nil => rfl
  | cons hc _ ih =>
    rw [List.map_cons, List.map_cons, ih, hc]
    rfl

/-- The tokens of a statement are the words of its instruction. -/
theorem map_value_of_tokens (h : Tokens s us) : us.map Spelled.value = s.instruction.words := by
  cases h with
  | bare m => rfl
  | operands m o hos =>
    rw [List.map_cons, List.map_cons, map_value_of_furtherOperands hos]
    exact (words_cons _ _ _).symm

theorem furtherOperands_of_map_value {os : List Operand}
    (h : us.map Spelled.value = os.flatMap fun o => [.comma, .operand o]) :
    ∃ os' : List (Spelled Operand), FurtherOperands os' us ∧ os'.map Spelled.value = os := by
  induction os generalizing us with
  | nil =>
    obtain rfl := List.map_eq_nil_iff.1 h
    exact ⟨[], .nil, rfl⟩
  | cons o os ih =>
    rw [List.flatMap_cons, List.cons_append, List.cons_append, List.nil_append] at h
    obtain ⟨c, us₁, rfl, hc, h₁⟩ := List.map_eq_cons_iff.1 h
    obtain ⟨⟨v, lexeme, pos⟩, us₂, rfl, rfl, h₂⟩ := List.map_eq_cons_iff.1 h₁
    obtain ⟨os', hos, rfl⟩ := ih h₂
    exact ⟨⟨o, lexeme, pos⟩ :: os', .cons hc hos, rfl⟩

/-- The words of an instruction are the tokens of a statement. -/
theorem tokens_of_map_value {i : Instruction} (h : us.map Spelled.value = i.words) :
    ∃ s, Tokens s us ∧ s.instruction = i := by
  obtain ⟨m, os⟩ := i
  cases os with
  | nil =>
    obtain ⟨⟨v, lexeme, pos⟩, us₁, rfl, rfl, h₁⟩ := List.map_eq_cons_iff.1 h
    obtain rfl := List.map_eq_nil_iff.1 h₁
    exact ⟨_, .bare ⟨m, lexeme, pos⟩, rfl⟩
  | cons o os =>
    rw [words_cons] at h
    obtain ⟨⟨v, lexeme, pos⟩, us₁, rfl, rfl, h₁⟩ := List.map_eq_cons_iff.1 h
    obtain ⟨⟨v, lexeme', pos'⟩, us₂, rfl, rfl, h₂⟩ := List.map_eq_cons_iff.1 h₁
    obtain ⟨os', hos, rfl⟩ := furtherOperands_of_map_value h₂
    exact ⟨_, .operands ⟨m, lexeme, pos⟩ ⟨o, lexeme', pos'⟩ hos, rfl⟩

theorem mem_words {i : Instruction} {word : Word} (h : word ∈ i.words) :
    (∃ m, word = .mnemonic m) ∨ (∃ o, word = .operand o) ∨ word = .comma := by
  obtain ⟨m, os⟩ := i
  cases os with
  | nil => exact .inl ⟨m, List.mem_singleton.1 h⟩
  | cons o os =>
    rw [words_cons, List.mem_cons, List.mem_cons, List.mem_flatMap] at h
    rcases h with rfl | rfl | ⟨o', -, h⟩
    · exact .inl ⟨m, rfl⟩
    · exact .inr (.inl ⟨o, rfl⟩)
    · rw [List.mem_cons, List.mem_singleton] at h
      rcases h with rfl | rfl
      · exact .inr (.inr rfl)
      · exact .inr (.inl ⟨o', rfl⟩)

theorem size_words (i : Instruction) : (i.words.map Word.size).sum = i.size := by
  obtain ⟨m, os⟩ := i
  have hsize : ∀ os : List Operand,
      ((os.flatMap fun o => [Word.comma, .operand o]).map Word.size).sum = os.length := by
    intro os
    induction os with
    | nil => rfl
    | cons o os ih => simp [Word.size, ih, Nat.add_comm]
  cases os with
  | nil => rfl
  | cons o os =>
    rw [words_cons, List.map_cons, List.map_cons, List.sum_cons, List.sum_cons, hsize]
    simp [Word.size, size]
    omega

end Instruction

/-! ### From statements to lines -/

namespace Item

/-- The items in front of the end of the input. -/
def untilEnd (is : List Item) : List Item := is.takeWhile fun i => decide (i ≠ .token .endOfInput)

theorem untilEnd_append {is : List Item} (h : ∀ i ∈ is, i ≠ .token .endOfInput) (js : List Item) :
    untilEnd (is ++ js) = is ++ untilEnd js :=
  List.takeWhile_append_of_pos fun i hi => decide_eq_true (h i hi)

theorem untilEnd_end (is : List Item) : untilEnd (.token .endOfInput :: is) = [] := by
  simp [untilEnd]

/-- An item is known by its word, unless it defines a label. -/
theorem eq_token {i : Item} {word : Word} (h : i.word? = some word)
    (hw : word ≠ .labelDefinition) : i = .token word := by
  cases i with
  | gap => cases h
  | token word' => cases h; rfl
  | definition name => cases h; exact absurd rfl hw

theorem eq_definition {i : Item} (h : i.word? = some .labelDefinition)
    (hi : i ≠ .token .labelDefinition) : ∃ name, i = .definition name := by
  cases i with
  | gap => cases h
  | token word => cases h; exact absurd rfl hi
  | definition name => exact ⟨name, rfl⟩

theorem eq_map_token {is : List Item} {words : List Word}
    (h : is.map word? = words.map some) (hw : ∀ word ∈ words, word ≠ .labelDefinition) :
    is = words.map .token := by
  induction words generalizing is with
  | nil => exact List.map_eq_nil_iff.1 h
  | cons word words ih =>
    obtain ⟨i, js, rfl, hi, hjs⟩ := List.map_eq_cons_iff.1 h
    rw [List.forall_mem_cons] at hw
    rw [eq_token hi hw.1, ih hjs hw.2, List.map_cons]

end Item

namespace Script

variable {p : Script} {is : List Item} {ts : List Token} {ss : List Statement}

/-- The line of an instruction without labels. -/
def plain (i : Instruction) : Line := ⟨[], some i⟩

theorem items_plain (i : Instruction) : (plain i).items = i.words.map .token := by
  simp [plain, Line.items]

/-- A label definition belongs to the line in front of which it stands. -/
theorem Spelled.definition {l : Line} (h : Spelled (l :: p) is) (name : String) :
    Spelled (⟨name :: l.labels, l.instruction⟩ :: p) (.definition name :: is) := by
  cases h with
  | last => exact .last ⟨name :: l.labels, l.instruction⟩
  | line _ hd h => exact .line ⟨name :: l.labels, l.instruction⟩ hd h

/-- The items of the tokens of a statement. -/
theorem items_of_tokens {s : Statement} {us : List Token} (hs : Tokens s us)
    (h : is.map Item.word? = us.map fun t => some t.value) :
    is = (plain s.instruction).items ∧ ∀ i ∈ is, i ≠ .token .endOfInput := by
  have hwords : is.map Item.word? = s.instruction.words.map some := by
    rw [h, ← Instruction.map_value_of_tokens hs, List.map_map]
    rfl
  have heq : is = s.instruction.words.map .token := by
    refine Item.eq_map_token hwords fun word hmem => ?_
    rcases Instruction.mem_words hmem with ⟨m, rfl⟩ | ⟨o, rfl⟩ | rfl <;> simp
  refine ⟨heq.trans (items_plain _).symm, fun i hi => ?_⟩
  rw [heq] at hi
  obtain ⟨word, hmem, rfl⟩ := List.mem_map.1 hi
  rcases Instruction.mem_words hmem with ⟨m, rfl⟩ | ⟨o, rfl⟩ | rfl <;> simp

theorem delimiter_ne {d : Word} (hd : d.isDelimiter) :
    d ≠ .labelDefinition ∧ d ≠ .endOfInput := by
  cases d <;> simp [Word.isDelimiter] at hd ⊢

/-- A delimiter ends a line. -/
theorem Spelled.untilEnd_line {l : Line} {i : Item} {d : Word}
    (h : Spelled p (Item.untilEnd is)) (hi : i.word? = some d) (hd : d.isDelimiter)
    (hl : ∀ i ∈ l.items, i ≠ .token .endOfInput) :
    Spelled (l :: p) (Item.untilEnd (l.items ++ i :: is)) := by
  obtain ⟨hdef, hend⟩ := delimiter_ne hd
  obtain rfl := Item.eq_token hi hdef
  have hline : ∀ i ∈ l.items ++ [.token d], i ≠ .token .endOfInput := by
    intro i hmem
    rcases List.mem_append.1 hmem with hmem | hmem
    · exact hl i hmem
    · rw [List.mem_singleton.1 hmem]
      simpa using hend
  have heq : l.items ++ .token d :: is = (l.items ++ [.token d]) ++ is := by simp
  rw [heq, Item.untilEnd_append hline, List.append_assoc]
  exact .line l hd h

/-- **The items of statements spell a script with their instructions.** -/
theorem spelled_of_sequence (h : Sequence ts ss)
    (heq : is.map Item.word? = ts.map fun t => some t.value)
    (hdef : ∀ i ∈ is, i ≠ .token .labelDefinition) :
    ∃ l p, Spelled (l :: p) (Item.untilEnd is) ∧
      instructions (l :: p) = ss.map Statement.instruction := by
  -- there is always a first line, since a label in front has to belong to one
  induction h generalizing is with
  | nil =>
    obtain rfl := List.map_eq_nil_iff.1 heq
    exact ⟨⟨[], none⟩, [], .last ⟨[], none⟩, rfl⟩
  | @done t ts ht =>
    obtain ⟨i, js, rfl, hi, -⟩ := List.map_eq_cons_iff.1 heq
    have hword : i.word? = some .endOfInput := by rw [← ht]; exact hi
    rw [Item.eq_token hword (by simp), Item.untilEnd_end]
    exact ⟨⟨[], none⟩, [], .last ⟨[], none⟩, rfl⟩
  | @skip t ts ss ht _ ih =>
    obtain ⟨i, js, rfl, hi, hjs⟩ := List.map_eq_cons_iff.1 heq
    rw [List.forall_mem_cons] at hdef
    obtain ⟨l, p, hp, hinst⟩ := ih hjs hdef.2
    rcases ht with ht | ht
    · -- the delimiter ends an empty line
      exact ⟨⟨[], none⟩, l :: p, hp.untilEnd_line (l := ⟨[], none⟩) hi ht (by simp [Line.items]),
        hinst⟩
    · -- the label belongs to the line that follows
      have hword : i.word? = some .labelDefinition := by rw [← ht]; exact hi
      obtain ⟨name, rfl⟩ := Item.eq_definition hword hdef.1
      have hone : ∀ i ∈ [Item.definition name], i ≠ .token .endOfInput := by simp
      have huntil : Item.untilEnd (.definition name :: js) = .definition name :: Item.untilEnd js :=
        Item.untilEnd_append hone js
      refine ⟨⟨name :: l.labels, l.instruction⟩, p, ?_, hinst⟩
      rw [huntil]
      exact hp.definition name
  | @statement s us t ts ss hs ht _ ih =>
    -- the statement is a line without labels: those in front of it were skipped before
    rw [List.map_append, List.map_cons] at heq
    obtain ⟨is₁, is₂, rfl, h₁, h₂⟩ := List.map_eq_append_iff.1 heq
    obtain ⟨i, js, rfl, hi, hjs⟩ := List.map_eq_cons_iff.1 h₂
    obtain ⟨rfl, hend⟩ := items_of_tokens hs h₁
    obtain ⟨l, p, hp, hinst⟩ := ih hjs fun j hj =>
      hdef j (List.mem_append_right _ (List.mem_cons_of_mem _ hj))
    refine ⟨plain s.instruction, l :: p, hp.untilEnd_line hi ht hend, ?_⟩
    rw [List.map_cons, ← hinst]
    rfl
  | @last s us t ts hs ht =>
    rw [List.map_append, List.map_cons] at heq
    obtain ⟨is₁, is₂, rfl, h₁, h₂⟩ := List.map_eq_append_iff.1 heq
    obtain ⟨i, js, rfl, hi, -⟩ := List.map_eq_cons_iff.1 h₂
    obtain ⟨rfl, hend⟩ := items_of_tokens hs h₁
    have hword : i.word? = some .endOfInput := by rw [← ht]; exact hi
    rw [Item.eq_token hword (by simp), Item.untilEnd_append hend, Item.untilEnd_end,
      List.append_nil]
    exact ⟨plain s.instruction, [], .last _, rfl⟩

/-! ### From lines to statements -/

variable {l : Line} {us : List Token} {e : Token}

/-- The tokens of a line: label definitions, and those of its instruction. -/
theorem tokens_of_line (h : l.items.map Item.word? = us.map fun t => some t.value) :
    ∃ vs ws, us = vs ++ ws ∧ (∀ v ∈ vs, Statement.Skipped v) ∧
      ws.map Spelled.value = l.instruction.toList.flatMap Instruction.words := by
  rw [Line.items, List.map_append] at h
  obtain ⟨vs, ws, rfl, hvs, hws⟩ := List.map_eq_append_iff.1 h.symm
  refine ⟨vs, ws, rfl, fun v hv => .inr ?_, ?_⟩
  · have hmem : some v.value ∈ vs.map fun t => some t.value := List.mem_map.2 ⟨v, hv, rfl⟩
    rw [hvs, List.map_map, List.mem_map] at hmem
    obtain ⟨name, -, hname⟩ := hmem
    exact (Option.some.inj hname).symm
  · refine (List.map_inj_right fun _ _ => Option.some.inj).1 ?_
    rw [List.map_map]
    refine Eq.trans hws ?_
    rw [List.map_map]
    rfl

/-- Label definitions in front of statements change nothing. -/
theorem sequence_skipped {vs : List Token} (hvs : ∀ v ∈ vs, Statement.Skipped v)
    (h : Sequence ts ss) : Sequence (vs ++ ts) ss := by
  induction vs with
  | nil => exact h
  | cons v vs ih =>
    rw [List.forall_mem_cons] at hvs
    exact .skip hvs.1 (ih hvs.2)

/-- **The items of a script are those of statements with its instructions.** -/
theorem Spelled.sequence (h : Spelled p is) (he : e.value = .endOfInput)
    (heq : is.map Item.word? = ts.map fun t => some t.value) :
    ∃ ss, Sequence (ts ++ [e]) ss ∧ ss.map Statement.instruction = p.instructions := by
  induction h generalizing ts with
  | nil =>
    obtain rfl := List.map_eq_nil_iff.1 heq.symm
    exact ⟨[], .done he, rfl⟩
  | last l =>
    obtain ⟨vs, ws, rfl, hvs, hws⟩ := tokens_of_line heq
    obtain ⟨labels, _ | i⟩ := l
    · obtain rfl := List.map_eq_nil_iff.1 hws
      refine ⟨[], ?_, rfl⟩
      rw [List.append_nil]
      exact sequence_skipped hvs (.done he)
    · obtain ⟨s, hs, rfl⟩ := Instruction.tokens_of_map_value (hws.trans (List.append_nil _))
      refine ⟨[s], ?_, rfl⟩
      rw [List.append_assoc]
      exact sequence_skipped hvs (.last hs he)
  | @line l d p is hd _ ih =>
    rw [List.map_append, List.map_cons] at heq
    obtain ⟨us, ts', rfl, hus, hts'⟩ := List.map_eq_append_iff.1 heq.symm
    obtain ⟨t, ts, rfl, ht, hts⟩ := List.map_eq_cons_iff.1 hts'
    obtain rfl : t.value = d := Option.some.inj ht
    obtain ⟨ss, hss, hinst⟩ := ih hts.symm
    -- the labels and the delimiter of an empty line are skipped, others close its statement
    obtain ⟨vs, ws, rfl, hvs, hws⟩ := tokens_of_line hus.symm
    rw [List.append_assoc, List.append_assoc, List.cons_append]
    obtain ⟨labels, _ | i⟩ := l
    · obtain rfl := List.map_eq_nil_iff.1 hws
      exact ⟨ss, sequence_skipped hvs (.skip (.inl hd) hss), hinst⟩
    · obtain ⟨s, hs, rfl⟩ := Instruction.tokens_of_map_value (hws.trans (List.append_nil _))
      refine ⟨s :: ss, sequence_skipped hvs (.statement hs hd hss), ?_⟩
      rw [List.map_cons, hinst]
      rfl

end Script

end Asm256
