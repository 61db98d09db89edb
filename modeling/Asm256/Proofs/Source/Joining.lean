/-
Two texts with a line feed between them.

The line feed ends what is open at the end of the first text, a word, a comment
or a statement, so each part is read as it is read alone; the second stands some
lines further down (`Position.down`) and behind the code of the first:
* `Piece.Spells.join` — the pieces of both with a line feed between them spell the joined text;
* `Piece.Admissible.join` — they are admissible if their labels differ and their code fits;
* `Piece.Spells.tokens_join`, `Piece.Spells.labels_join` — the tokens and labels of both;
* `Statement.Sequence.join` — the tokens of both are the statements of both.
-/
import Asm256.Proofs.Script.Placement
import Asm256.Proofs.Source.Places
import Asm256.Proofs.Source.Reading

namespace Asm256

/-! ### Further down in a text -/

namespace Position

variable {w k : Nat}

/-- The place `k` lines further down. -/
def down (k : Nat) (p : Position) : Position := { p with line := p.line + k }

theorem advance_down (p : Position) (c : Char) :
    (p.down k).advance w c = (p.advance w c).down k := by
  unfold advance
  by_cases hc : c = '\n'
  · rw [if_pos hc, if_pos hc]
    exact congrArg (Position.mk · 1) (Nat.add_right_comm _ _ _)
  · rw [if_neg hc, if_neg hc]
    by_cases ht : c = '\t'
    · rw [if_pos ht, if_pos ht]
      rfl
    · rw [if_neg ht, if_neg ht]
      rfl

theorem after_down (p : Position) (text : List Char) :
    (p.down k).after w text = (p.after w text).down k := by
  induction text generalizing p with
  | nil => rfl
  | cons c text ih => rw [after_cons, after_cons, advance_down, ih]

/-- Behind a line feed a line starts, whatever stands in front. -/
theorem behind_newline (w : Nat) (text : List Char) :
    behind w (text ++ ['\n']) = start.down (text.count '\n' + 1) := by
  rw [behind, Text.lastLine_concat_newline, List.count_append]
  rfl

end Position

/-- The same word `k` lines further down. -/
def Spelled.down {α : Type} (k : Nat) (a : Spelled α) : Spelled α := { a with pos := a.pos.down k }

@[simp] theorem Spelled.value_down {α : Type} (k : Nat) (a : Spelled α) :
    (a.down k).value = a.value := rfl

/-- The same statement `k` lines further down. -/
def Statement.down (k : Nat) (s : Statement) : Statement where
  mnemonic := s.mnemonic.down k
  operands := s.operands.map (Spelled.down k)

/-- The same label behind `n` more bytes of code, and `k` lines further down. -/
def Label.moved (n k : Nat) (l : Label) : Label :=
  { l with address := l.address + n, pos := l.pos.down k }

/-! ### The pieces of a joined text -/

namespace Item

variable {i : Item} {text rest : List Char}

/-- A run that may end where a text ends may end in front of a line feed. -/
theorem stops_append_newline {f : Char → Bool} (h : Text.Stops f rest) (hf : f '\n' = false)
    (more : List Char) : Text.Stops f (rest ++ '\n' :: more) := by
  cases rest with
  | nil => exact stops_cons hf
  | cons d rest => exact h

/-- **What is spelled in a text is spelled there with a line feed and another text behind it.** -/
theorem Spelling.append_newline (h : Spelling i text rest) (more : List Char) :
    Spelling i text (rest ++ '\n' :: more) := by
  cases h with
  | newline => exact .newline
  | semicolon => exact .semicolon
  | comma => exact .comma
  | blank hc hn => exact .blank hc hn
  | lineComment hb hr => exact .lineComment hb (stops_append_newline hr (by decide) more)
  | blockComment hb => exact .blockComment hb
  | memory hn hr => exact .memory hn (stops_append_newline hr (by decide) more)
  | literal hn hr => exact .literal hn (stops_append_newline hr (by decide) more)
  | register hn hlt hr => exact .register hn hlt (stops_append_newline hr (by decide) more)
  | mnemonic hr => exact .mnemonic (stops_append_newline hr (by decide) more)
  | label hn hr hc =>
    refine .label hn (stops_append_newline hr (by decide) more) ?_
    cases rest with
    | nil => simp
    | cons d rest => exact hc
  | definition hn => exact .definition hn

/-- Labels behind a line feed are where they may be, since a statement can start there. -/
theorem placed_join {is js : List Item} {b : Bool} (h : Placed b is) (h' : Placed true js) :
    Placed b (is ++ .token .newline :: js) := by
  induction is generalizing b with
  | nil => exact placed_delimiter rfl h' b
  | cons i is ih => exact ⟨h.1, ih h.2⟩

end Item

namespace Piece

variable {w : Nat} {p q : List Char} {ps qs : List Piece}

/-- Pieces with a line feed between them. -/
def join (ps qs : List Piece) : List Piece := ps ++ ⟨.token .newline, ['\n']⟩ :: qs

/-- **The pieces of two texts spell the joined text.** -/
theorem Spells.join (hp : Spells ps p) (hq : Spells qs q) :
    Spells (Piece.join ps qs) (p ++ '\n' :: q) := by
  induction hp with
  | nil => exact .cons .newline hq
  | cons hi _ ih =>
    rw [List.append_assoc]
    exact .cons (hi.append_newline q) ih

theorem size_join (ps qs : List Piece) : size (join ps qs) = size ps + size qs := by
  rw [size, join, List.map_append, List.sum_append, List.map_cons, List.sum_cons]
  exact congrArg (size ps + ·) (Nat.zero_add _)

theorem items_join (ps qs : List Piece) :
    items (join ps qs) = items ps ++ .token .newline :: items qs := by
  rw [join, items_append]
  rfl

theorem names_join (ps qs : List Piece) : names (join ps qs) = names ps ++ names qs := by
  rw [names, items_join, List.filterMap_append]
  rfl

/-- **The pieces of two texts are admissible together** if those of each are, no label is defined in
both, and the code of both fits. -/
theorem Admissible.join (hp : Admissible w {} ps) (hq : Admissible w {} qs)
    (hnames : (names ps).Disjoint (names qs)) (hle : size ps + size qs ≤ memorySize) :
    Admissible w {} (Piece.join ps qs) := by
  obtain ⟨-, hpnodup, -, hpplaced⟩ := (admissible_iff (Nat.zero_le _)).1 hp
  obtain ⟨-, hqnodup, -, hqplaced⟩ := (admissible_iff (Nat.zero_le _)).1 hq
  refine (admissible_iff (Nat.zero_le _)).2 ⟨?_, ?_, fun name _ => rfl, ?_⟩
  · rw [size_join]
    exact (Nat.zero_add _).trans_le hle
  · rw [names_join]
    exact hpnodup.append hqnodup hnames
  · rw [items_join]
    exact Item.placed_join hpplaced hqplaced

/-- The labels of pieces are named as these say. -/
theorem map_name_labels (w : Nat) (pos : Position) (n : Nat) (ps : List Piece) :
    (labels w pos n ps).map Label.name = names ps := by
  induction ps generalizing pos n with
  | nil => rfl
  | cons p ps ih =>
    rw [labels, names_cons, List.map_append, ih]
    obtain ⟨item, text⟩ := p
    cases item <;> rfl

/-! ### Tokens and labels of a joined text -/

theorem tokens_append (w : Nat) (pos : Position) (ps qs : List Piece) :
    tokens w pos (ps ++ qs) = tokens w pos ps ++ tokens w (pos.after w (textOf ps)) qs := by
  induction ps generalizing pos with
  | nil => rfl
  | cons p ps ih =>
    rw [List.cons_append, tokens, tokens, ih, textOf_cons, Position.after_append,
      List.append_assoc]

theorem labels_append (w : Nat) (pos : Position) (n : Nat) (ps qs : List Piece) :
    labels w pos n (ps ++ qs) =
      labels w pos n ps ++ labels w (pos.after w (textOf ps)) (n + size ps) qs := by
  induction ps generalizing pos n with
  | nil => rfl
  | cons p ps ih =>
    have hsize : n + p.item.size + size ps = n + size (p :: ps) := by
      rw [size, size, List.map_cons, List.sum_cons, Nat.add_assoc]
    rw [List.cons_append, labels, labels, ih, textOf_cons, Position.after_append,
      List.append_assoc, hsize]

/-- Pieces further down have the same tokens further down. -/
theorem tokens_down (w k : Nat) (pos : Position) (ps : List Piece) :
    tokens w (pos.down k) ps = (tokens w pos ps).map (Spelled.down k) := by
  induction ps generalizing pos with
  | nil => rfl
  | cons p ps ih =>
    rw [tokens, tokens, List.map_append, Position.after_down, ih]
    refine congrArg (· ++ _) ?_
    unfold token?
    cases p.item.word? <;> rfl

/-- Pieces further down and behind more bytes of code have the same labels, which have moved. -/
theorem labels_down (w k n address : Nat) (pos : Position) (ps : List Piece) :
    labels w (pos.down k) (address + n) ps = (labels w pos address ps).map (Label.moved n k) := by
  induction ps generalizing pos address with
  | nil => rfl
  | cons p ps ih =>
    rw [labels, labels, List.map_append, Position.after_down, Nat.add_right_comm, ih]
    refine congrArg (· ++ _) ?_
    obtain ⟨item, text⟩ := p
    cases item with
    | definition name =>
      show [(⟨name, ((address + n : Nat) : Int), pos.down k⟩ : Label)] = [⟨name, _, _⟩]
      rw [Nat.cast_add]
    | gap | token word => rfl

/-- Behind a text and a line feed, a reader is at the start of a line. -/
theorem Spells.after_newline (hp : Spells ps p) (w : Nat) :
    (Position.start.after w (textOf ps)).after w ['\n'] =
      Position.start.down (p.count '\n' + 1) := by
  rw [hp.textOf_eq, ← Position.after_append, Position.after_start, Position.behind_newline]

/-- **The tokens of a joined text**: those of the first text, the line feed, and those of the second
with the end of the input, further down. -/
theorem Spells.tokens_join (hp : Spells ps p) (w : Nat) (qs : List Piece) :
    (stream w (Piece.join ps qs)).tokens = tokens w .start ps ++
      ⟨.newline, "\n", Position.start.after w p⟩ ::
        (stream w qs).tokens.map (Spelled.down (p.count '\n' + 1)) := by
  have hrest : tokens w (Position.start.after w (textOf ps)) (⟨.token .newline, ['\n']⟩ :: qs) =
      ⟨.newline, "\n", Position.start.after w p⟩ ::
        (tokens w .start qs).map (Spelled.down (p.count '\n' + 1)) := by
    rw [tokens, hp.after_newline, tokens_down, hp.textOf_eq]
    rfl
  have hfinish : finish w .start (Piece.join ps qs) =
      (finish w .start qs).down (p.count '\n' + 1) := by
    have htext : textOf (Piece.join ps qs) = textOf ps ++ (['\n'] ++ textOf qs) :=
      List.flatMap_append
    show Position.start.after w (textOf (Piece.join ps qs)) = _
    rw [htext, Position.after_append, Position.after_append, hp.after_newline,
      Position.after_down]
    rfl
  show tokens w .start (Piece.join ps qs) ++ [⟨.endOfInput, "", finish w .start _⟩] = _
  rw [hfinish, Piece.join, tokens_append, hrest, List.append_assoc, List.cons_append, stream,
    List.map_append]
  rfl

/-- **The labels of a joined text**: those of the first text, and those of the second behind the
code of the first. -/
theorem Spells.labels_join (hp : Spells ps p) (w : Nat) (qs : List Piece) :
    (stream w (Piece.join ps qs)).labels = (stream w ps).labels ++
      (stream w qs).labels.map (Label.moved (size ps) (p.count '\n' + 1)) := by
  show labels w .start 0 (ps ++ ⟨.token .newline, ['\n']⟩ :: qs) = _
  rw [labels_append, labels, hp.after_newline]
  refine congrArg (labels w .start 0 ps ++ ·) ?_
  exact labels_down w _ (size ps) 0 .start qs

end Piece

/-! ### Statements of a joined text -/

namespace Statement

variable {s : Statement} {us ts : List Token} {ss ss' : List Statement} {d e : Token}

theorem FurtherOperands.down {os : List (Spelled Operand)} (h : FurtherOperands os us) (k : Nat) :
    FurtherOperands (os.map (Spelled.down k)) (us.map (Spelled.down k)) := by
  induction h with
  | nil => exact .nil
  | cons hc _ ih => exact .cons hc ih

theorem Tokens.down (h : Tokens s us) (k : Nat) :
    Tokens (s.down k) (us.map (Spelled.down k)) := by
  cases h with
  | bare m => exact .bare (m.down k)
  | operands m o hos => exact .operands (m.down k) (o.down k) (hos.down k)

/-- Tokens further down are the same statements further down. -/
theorem Sequence.down (h : Sequence ts ss) (k : Nat) :
    Sequence (ts.map (Spelled.down k)) (ss.map (Statement.down k)) := by
  induction h with
  | nil => exact .nil
  | done ht => exact .done ht
  | skip ht _ ih => exact .skip ht ih
  | statement hs ht _ ih =>
    rw [List.map_append, List.map_cons, List.map_cons]
    exact .statement (hs.down k) ht ih
  | last hs ht =>
    rw [List.map_append, List.map_cons]
    exact .last (hs.down k) ht

/-- **A delimiter parts statements as the end of the input does**: tokens in front of one that are
statements when the input ends there, and tokens behind it, are the statements of both. -/
theorem Sequence.join (h : Sequence (us ++ [e]) ss) (he : e.value = .endOfInput)
    (hus : ∀ u ∈ us, u.value ≠ .endOfInput) (hd : d.value.isDelimiter)
    (h' : Sequence ts ss') : Sequence (us ++ d :: ts) (ss ++ ss') := by
  generalize heq : us ++ [e] = all at h
  -- the last token is the end of the input, so what a derivation takes first is in front of it
  induction h generalizing us with
  | nil => simp at heq
  | done ht =>
    rcases us with _ | ⟨u, us⟩
    · exact .skip (.inl hd) h'
    · obtain ⟨rfl, -⟩ := List.cons.inj heq
      exact absurd ht (hus _ (by simp))
  | skip ht _ ih =>
    rcases us with _ | ⟨u, us⟩
    · obtain ⟨rfl, -⟩ := List.cons.inj heq
      exact absurd he ht.ne_endOfInput
    · obtain ⟨rfl, htail⟩ := List.cons.inj heq
      exact .skip ht (ih (fun v hv => hus v (List.mem_cons_of_mem _ hv)) htail)
  | statement hs ht _ ih =>
    rcases eq_or_exists_of_append_singleton heq with ⟨-, rfl, -⟩ | ⟨more, hmore, rfl⟩
    · exact absurd he (ne_endOfInput_of_isDelimiter ht)
    · rw [List.append_assoc, List.cons_append, List.cons_append]
      exact .statement hs ht (ih (fun v hv => hus v (by simp [hv])) hmore.symm)
  | last hs ht =>
    rcases eq_or_exists_of_append_singleton heq with ⟨rfl, -, -⟩ | ⟨more, -, rfl⟩
    · exact .statement hs hd h'
    · exact absurd ht (hus _ (by simp))

end Statement

end Asm256
