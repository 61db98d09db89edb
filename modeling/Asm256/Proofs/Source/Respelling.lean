/-
Texts that are respelled.

The spellings of the tokens of a text, with single spaces between them, are a text of their own
(`TokenStream.respelled`).  It is read as the same tokens at other places, since a space keeps any
two words apart; and what comes of tokens does not look at their places:
* `Piece.respell` — the pieces of a text, with spaces in the place of gaps;
* `Piece.Spells.respell` — they spell the respelled text;
* `Piece.stream_respell` — and they have the same words, labels and bytes of code.

The main result is `layout_is_insignificant`.
-/
import Asm256.Instruction.Table
import Asm256.Proofs.Outcome
import Asm256.Proofs.Source.Matching
import Asm256.Proofs.Source.Places

namespace Asm256

/-- Any two places. -/
def Position.Anywhere (_ : String) (_ _ : Position) : Prop := True

open Position (Anywhere)

/-- The spellings of the tokens in front of the end of the input, with single spaces between them. -/
def TokenStream.respelled (s : TokenStream) : List Char :=
  [' '].intercalate ((Statement.readTokens s.tokens).map fun t => t.lexeme.toList)

/-- What is spelled as a word in front of some text is spelled as it alone. -/
theorem Item.Spelling.alone {i : Item} {chars rest : List Char} (h : i.Spelling chars rest)
    (hi : i ≠ .gap) : i.Spelling chars [] := by
  cases h with
  | newline => exact .newline
  | semicolon => exact .semicolon
  | comma => exact .comma
  | blank _ _ | lineComment _ _ | blockComment _ => exact absurd rfl hi
  | memory hn _ => exact .memory hn loose_nil.isDigit
  | literal hn _ => exact .literal hn loose_nil.isDigit
  | register hn hlt _ => exact .register hn hlt loose_nil.isDigit
  | mnemonic _ => exact .mnemonic loose_nil.isNameChar
  | label hn _ _ => exact .label hn loose_nil.isNameChar loose_nil.ne_colon
  | definition hn => exact .definition hn

namespace Piece

variable {w w' n : Nat} {pos pos' : Position} {text : List Char} {ps qs : List Piece}

/-! ### Words of pieces -/

/-- The pieces that are words. -/
def words (ps : List Piece) : List Piece := ps.filter fun p => p.item.word?.isSome

/-- The words of pieces, with their characters. -/
def spoken (ps : List Piece) : List (Word × List Char) :=
  ps.filterMap fun p => p.item.word?.map fun word => (word, p.text)

theorem items_eq_map_words (ps : List Piece) : items ps = (words ps).map Piece.item :=
  List.filter_map

theorem spoken_words (ps : List Piece) : spoken (words ps) = spoken ps := by
  rw [words, spoken, List.filterMap_filter]
  refine List.filterMap_congr fun p _ => ?_
  cases p.item.word? <;> rfl

theorem spoken_cons_none {p : Piece} (hw : p.item.word? = none) : spoken (p :: ps) = spoken ps :=
  List.filterMap_cons_none (by rw [hw]; rfl)

theorem spoken_cons_some {p : Piece} {word : Word} (hw : p.item.word? = some word) :
    spoken (p :: ps) = (word, p.text) :: spoken ps :=
  List.filterMap_cons_some (by rw [hw]; rfl)

theorem words_cons_of_isSome {p : Piece} (hw : p.item.word?.isSome) :
    words (p :: ps) = p :: words ps :=
  List.filter_cons_of_pos (p := fun p : Piece => p.item.word?.isSome) hw

theorem words_cons_none {p : Piece} (hw : p.item.word? = none) : words (p :: ps) = words ps :=
  List.filter_cons_of_neg (by rw [hw]; decide)

theorem map_text_words (ps : List Piece) : (words ps).map Piece.text = (spoken ps).map Prod.snd := by
  induction ps with
  | nil => rfl
  | cons p ps ih =>
    cases hw : p.item.word? with
    | none => rw [words_cons_none hw, spoken_cons_none hw, ih]
    | some word =>
      have hsome : p.item.word?.isSome := by
        rw [hw]
        rfl
      rw [words_cons_of_isSome hsome, spoken_cons_some hw, List.map_cons, List.map_cons, ih]

/-- Tokens say what the words of their pieces do, with the same characters. -/
theorem map_spoken_tokens (w : Nat) (pos : Position) (ps : List Piece) :
    (tokens w pos ps).map (fun t => (t.value, t.lexeme.toList)) = spoken ps := by
  induction ps generalizing pos with
  | nil => rfl
  | cons p ps ih =>
    rw [tokens, List.map_append, ih, token?]
    cases hw : p.item.word? with
    | none =>
      rw [spoken_cons_none hw]
      rfl
    | some word =>
      rw [spoken_cons_some hw]
      simp

/-- The spellings of tokens are the characters of the words of their pieces. -/
theorem map_lexeme_tokens (w : Nat) (pos : Position) (ps : List Piece) :
    (tokens w pos ps).map (fun t => t.lexeme.toList) = (spoken ps).map Prod.snd := by
  rw [← map_spoken_tokens w pos, List.map_map]
  rfl

/-- **Pieces with the same words have tokens that match.** -/
theorem tokens_matches (h : spoken ps = spoken qs) :
    List.Forall₂ (Spelled.Matches Anywhere) (tokens w pos ps) (tokens w' pos' qs) := by
  rw [← map_spoken_tokens w pos, ← map_spoken_tokens w' pos', ← List.forall₂_eq_eq_eq,
    List.forall₂_map_left_iff, List.forall₂_map_right_iff] at h
  refine h.imp fun t t' ht => ?_
  obtain ⟨hvalue, hlexeme⟩ := Prod.mk.inj ht
  exact ⟨hvalue.symm, (String.toList_inj.1 hlexeme).symm, trivial⟩

/-- Pieces with the same items have labels that match. -/
theorem labels_matches (h : items ps = items qs) :
    List.Forall₂ (Label.Matches Anywhere) (labels w pos n ps) (labels w' pos' n qs) := by
  have hlabels := map_labels w pos n ps
  rw [h, ← map_labels w' pos' n qs, ← List.forall₂_eq_eq_eq, List.forall₂_map_left_iff,
    List.forall₂_map_right_iff] at hlabels
  refine hlabels.imp fun l l' hl => ?_
  obtain ⟨hname, haddress⟩ := Prod.mk.inj hl
  exact ⟨hname.symm, haddress.symm, trivial⟩

/-- Whether pieces are admissible is a matter of their items. -/
theorem Admissible.of_items_eq (h : Admissible w {} ps) (hitems : items qs = items ps) :
    Admissible w' {} qs := by
  have hle : (0 : Nat) ≤ memorySize := Nat.zero_le _
  obtain ⟨hsize, hnodup, hnew, hplaced⟩ := (admissible_iff hle).1 h
  refine (admissible_iff hle).2 ⟨?_, ?_, fun name _ => rfl, ?_⟩
  · rwa [size_items, hitems, ← size_items]
  · rwa [names, hitems]
  · rwa [hitems]

/-! ### Words with spaces between them -/

/-- A space. -/
def space : Piece := ⟨.gap, [' ']⟩

/-- The words of pieces, with spaces between them. -/
def respell (ps : List Piece) : List Piece := (words ps).intersperse space

theorem words_intersperse (h : ∀ q ∈ qs, q.item.word?.isSome) :
    words (qs.intersperse space) = qs := by
  induction qs with
  | nil => rfl
  | cons q qs ih =>
    rw [List.forall_mem_cons] at h
    rcases qs with _ | ⟨r, qs⟩
    · exact words_cons_of_isSome h.1
    · rw [List.intersperse_cons_cons, words_cons_of_isSome h.1, words_cons_none rfl, ih h.2]

theorem words_respell (ps : List Piece) : words (respell ps) = words ps :=
  words_intersperse fun _ hq => (List.mem_filter.1 hq).2

theorem spoken_respell (ps : List Piece) : spoken (respell ps) = spoken ps := by
  rw [← spoken_words, words_respell, spoken_words]

theorem items_respell (ps : List Piece) : items (respell ps) = items ps := by
  rw [items_eq_map_words, words_respell, ← items_eq_map_words]

/-- Words that are spelled alone are spelled with spaces between them. -/
theorem spells_intersperse (h : ∀ q ∈ qs, q.item ≠ .gap ∧ q.item.Spelling q.text []) :
    Spells (qs.intersperse space) ([' '].intercalate (qs.map Piece.text)) := by
  induction qs with
  | nil => exact .nil
  | cons q qs ih =>
    rw [List.forall_mem_cons] at h
    obtain ⟨⟨hgap, hq⟩, hqs⟩ := h
    rcases qs with _ | ⟨r, qs⟩
    · rw [List.intersperse_singleton, List.map_singleton, List.intercalate_singleton]
      exact .singleton hq
    · -- a space is no part of a word, so the one in front of it ends there
      have hspace : Item.Spelling .gap [' '] ([' '].intercalate ((r :: qs).map Piece.text)) :=
        .blank (by decide) (by decide)
      have hrest := Spells.cons (p := space) hspace (ih hqs)
      rw [List.map_cons, List.map_cons, List.intercalate_cons_cons, List.intersperse_cons_cons,
        List.append_assoc]
      exact .cons (hq.of_loose hgap (Item.loose_cons (by decide))) hrest

/-- The respelled text is that of the words of the pieces, with spaces between them. -/
theorem Spells.respelled_stream (h : Spells ps text) (w : Nat) :
    (stream w ps).respelled = [' '].intercalate ((spoken ps).map Prod.snd) := by
  rw [TokenStream.respelled, h.readTokens_stream, map_lexeme_tokens]

/-- **The words of a text with spaces between them spell the respelled text.** -/
theorem Spells.respell (h : Spells ps text) (w : Nat) :
    Spells (respell ps) (stream w ps).respelled := by
  have hwords : ∀ q ∈ words ps, q.item ≠ .gap ∧ q.item.Spelling q.text [] := by
    intro q hq
    obtain ⟨hmem, hword⟩ := List.mem_filter.1 hq
    have hgap : q.item ≠ .gap := by
      intro hgap
      rw [hgap] at hword
      cases hword
    obtain ⟨before, after, rfl⟩ := List.append_of_mem hmem
    obtain ⟨rest, -, hspelled⟩ := h.leads
    exact ⟨hgap, hspelled.alone hgap⟩
  rw [h.respelled_stream, ← map_text_words]
  exact spells_intersperse hwords

/-- **Pieces that are respelled have a token stream that matches.** -/
theorem stream_respell (w w' : Nat) (ps : List Piece) :
    (stream w ps).Matches Anywhere (stream w' (respell ps)) where
  tokens :=
    List.rel_append (tokens_matches (spoken_respell ps).symm) (.cons ⟨rfl, rfl, trivial⟩ .nil)
  labels := labels_matches (items_respell ps).symm
  byteCount_eq := by
    show size (respell ps) = size ps
    rw [size_items, items_respell, ← size_items]

end Piece

/-! ### Errors -/

/-- A parse error is reported with its message. -/
theorem ParseError.message_diagnostic (e : ParseError) : e.diagnostic.message = e.message := by
  unfold diagnostic
  cases e.got <;> rfl

/-- Errors of a program that match are reported with the same message. -/
theorem SourceError.message_eq {R : String → Position → Position → Prop} {e e' : SourceError}
    (h : AssemblyError.Matches R (.source e) (.source e')) :
    e'.diagnostic.message = e.diagnostic.message := by
  cases h with
  | lexical e _ => rfl
  | @parse e e' h =>
    show e'.diagnostic.message = e.diagnostic.message
    rw [ParseError.message_diagnostic, ParseError.message_diagnostic, h.message_eq]
  | statement h => exact h.message_eq

/-- **Layout is insignificant.**  The tokens of a text that is read, with single spaces between their
spellings, are read again, whatever the tab widths are: as tokens that say the same with the same
spellings, with the same labels for the same addresses in the same order, and as many bytes of code;
and they are respelled as they are.  Both texts are assembled to the same image, for any instruction
table, or both have an error of the same kind with the same message. -/
theorem layout_is_insignificant (tree : SignatureTree) (w w' : Nat) {text : List Char}
    {s : TokenStream} (h : TokenStream.ofText w text = .ok s) :
    ∃ s', TokenStream.ofText w' s.respelled = .ok s' ∧ s.Matches Anywhere s' ∧
      s'.respelled = s.respelled ∧
      ((∃ a a', assemble tree w text = .ok a ∧ assemble tree w' s.respelled = .ok a' ∧
          a.Matches Anywhere a') ∨
        ∃ e e', assemble tree w text = .error (.source e) ∧
          assemble tree w' s.respelled = .error (.source e') ∧
          AssemblyError.Matches Anywhere (.source e) (.source e') ∧
          e'.diagnostic.message = e.diagnostic.message) := by
  obtain ⟨ps, hcut, hadmissible, rfl⟩ := TokenStream.ofText_eq_ok_iff.1 h
  have hspells := Piece.cut_eq_none_iff.1 hcut
  have hrespelled := hspells.respell w
  have hs' : TokenStream.ofText w' (Piece.stream w ps).respelled =
      .ok (Piece.stream w' (Piece.respell ps)) :=
    TokenStream.ofText_eq_ok_iff.2
      ⟨_, hrespelled.cut, hadmissible.of_items_eq (Piece.items_respell ps), rfl⟩
  -- what comes of tokens is a matter of their words, and these are the same
  have hmatches := Piece.stream_respell w w' ps
  refine ⟨_, hs', hmatches, ?_, ?_⟩
  · rw [hspells.respelled_stream, hrespelled.respelled_stream, Piece.spoken_respell]
  · have hassemble : Results (AssemblyError.Matches Anywhere) (Assembly.Matches Anywhere)
        (assemble tree w text) (assemble tree w' (Piece.stream w ps).respelled) := by
      refine assemble_matches ?_
      rw [h, hs']
      exact .ok hmatches
    -- no numeral of a text that is read is too long, so an error is one of the program
    rcases hspells.assemble tree w with ⟨a, ha⟩ | ⟨e, he⟩ <;>
      rcases hrespelled.assemble tree w' with ⟨a', ha'⟩ | ⟨e', he'⟩
    · rw [ha, ha'] at hassemble
      cases hassemble with
      | ok hassembly => exact .inl ⟨a, a', ha, ha', hassembly⟩
    · rw [ha, he'] at hassemble
      cases hassemble
    · rw [he, ha'] at hassemble
      cases hassemble
    · rw [he, he'] at hassemble
      cases hassemble with
      | error herror => exact .inr ⟨e, e', he, he', herror, SourceError.message_eq herror⟩

/-- Words that touch each other are kept apart, in a text that is assembled and in another one. -/
theorem layout_is_insignificant_touching :
    let text := "x:y:B/*\n*/z//\nz:;".toList
    let text' := "x: y: B z \n z: ;".toList
    (∃ a a', assemble .standard 4 text = .ok a ∧ assemble .standard 8 text' = .ok a' ∧
        a'.image = a.image) ∧
      ∃ e e', assemble .standard 4 "ADDR0".toList = .error (.source e) ∧
        assemble .standard 8 "ADDR 0".toList = .error (.source e') ∧
        e'.diagnostic.message = e.diagnostic.message := by
  intro text text'
  constructor
  · obtain ⟨s, hs, hchecked⟩ := exists_ok_of_any (x := TokenStream.ofText 4 text)
      (p := fun s => decide (s.respelled = text')) (by decide +kernel)
    obtain ⟨a, ha, -⟩ := exists_ok_of_any (x := assemble .standard 4 text)
      (p := fun _ => true) (by decide +kernel)
    obtain ⟨s', -, -, -, hassemble⟩ := layout_is_insignificant .standard 4 8 hs
    rw [of_decide_eq_true hchecked, ha] at hassemble
    rcases hassemble with ⟨b, a', hb, ha', hmatch⟩ | ⟨e, e', he, -⟩
    · cases hb
      exact ⟨a, a', ha, ha', hmatch.image_eq⟩
    · cases he
  · obtain ⟨s, hs, hchecked⟩ := exists_ok_of_any (x := TokenStream.ofText 4 "ADDR0".toList)
      (p := fun s => decide (s.respelled = "ADDR 0".toList)) (by decide +kernel)
    obtain ⟨e, he, -⟩ := exists_source_of_any (x := assemble .standard 4 "ADDR0".toList)
      (p := fun _ => true) (by decide +kernel)
    obtain ⟨s', -, -, -, hassemble⟩ := layout_is_insignificant .standard 4 8 hs
    rw [of_decide_eq_true hchecked, he] at hassemble
    rcases hassemble with ⟨a, a', ha, -⟩ | ⟨d, e', hd, he', -, hmessage⟩
    · cases ha
    · cases hd
      exact ⟨e, e', he, he', hmessage⟩

end Asm256
