/-
Words and the gaps between them.

The spelling of a word says what the word is (`Word.Spelling`), what stands behind it shows that it
is all of the word (`Word.EndsBefore`), and gaps are made of blanks and comments (`Text.Gap`).  A text
that is read is woven of these (`Token.Woven`):
* `Word.Spelling.unique` — a spelling is the spelling of one word only;
* `Piece.Spells.woven`, `Token.Woven.exists_spells` — the pieces of a text, as words and gaps;
* `Token.Woven.unique` — there is one way at most to see a text as words and gaps.

The main result is `text_of_words_and_gaps`.
-/
import Asm256.Proofs.Assembled
import Asm256.Proofs.Script.Items
import Asm256.Proofs.Source.Places

namespace Asm256

/-! ### Gaps -/

/-- What stands between words, with `rest` behind it: blanks other than line feeds, comments up to
the next line feed or the end, and comments up to the first end mark behind their opening. -/
inductive Text.Gap : List Char → List Char → Prop
  | nil {rest : List Char} : Gap [] rest
  | blank {c : Char} {gap rest : List Char} (hc : isBlank c) (hn : c ≠ '\n') (h : Gap gap rest) :
      Gap (c :: gap) rest
  | lineComment {body rest : List Char} (hb : '\n' ∉ body) (hr : ∀ c ∈ rest.head?, c = '\n') :
      Gap ('/' :: '/' :: body) rest
  | blockComment {body gap rest : List Char} (hb : Item.CommentBody body) (h : Gap gap rest) :
      Gap ('/' :: '*' :: (body ++ gap)) rest

namespace Text

variable {gap rest chars : List Char}

theorem stops_newline_iff : Stops (· != '\n') rest ↔ ∀ c ∈ rest.head?, c = '\n' := by
  simp [Stops]

/-- A gap does not start with a line feed. -/
theorem Gap.head_ne_newline (h : Gap gap rest) : ∀ c ∈ gap.head?, c ≠ '\n' := by
  intro c hc
  cases h with
  | nil => cases hc
  | blank _ hn _ =>
    cases hc
    exact hn
  | lineComment _ _ | blockComment _ _ =>
    cases hc
    decide

/-- A blank or a comment in front of a gap makes a gap with it. -/
theorem Gap.cons (h : Gap gap rest) (hs : Item.Spelling .gap chars (gap ++ rest)) :
    Gap (chars ++ gap) rest := by
  cases hs with
  | blank hc hn => exact .blank hc hn h
  | blockComment hb => exact .blockComment hb h
  | @lineComment body _ hb hr =>
    have hfeed := stops_newline_iff.1 hr
    -- a line feed ends the comment, so nothing of the gap is behind it
    rcases gap with _ | ⟨c, gap⟩
    · rw [List.append_nil]
      exact .lineComment hb hfeed
    · exact absurd (hfeed c rfl) (h.head_ne_newline c rfl)

end Text

/-- A gap in front of a text adds pieces to it, but no tokens. -/
theorem Text.Gap.exists_spells {gap rest : List Char} (h : Text.Gap gap rest) {ps : List Piece}
    (hps : Piece.Spells ps rest) (w : Nat) : ∃ qs, Piece.Spells qs (gap ++ rest) ∧ ∀ front,
      Piece.tokens w (.behind w front) qs = Piece.tokens w (.behind w (front ++ gap)) ps := by
  -- a piece without a word leaves the tokens behind it, which stand further on
  have hgap : ∀ (chars front : List Char) (qs : List Piece),
      Piece.tokens w (.behind w front) (⟨.gap, chars⟩ :: qs) =
        Piece.tokens w (.behind w (front ++ chars)) qs := by
    intro chars front qs
    rw [Piece.tokens, Position.after_behind]
    rfl
  induction h with
  | nil => exact ⟨ps, hps, fun front => by rw [List.append_nil]⟩
  | @blank c gap rest hc hn _ ih =>
    obtain ⟨qs, hqs, htokens⟩ := ih hps
    refine ⟨⟨.gap, [c]⟩ :: qs, .cons (.blank hc hn) hqs, fun front => ?_⟩
    rw [hgap, htokens, List.append_assoc, List.singleton_append]
  | @lineComment body rest hb hr =>
    refine ⟨⟨.gap, '/' :: '/' :: body⟩ :: ps, .cons ?_ hps, fun front => hgap _ _ _⟩
    exact .lineComment hb (Text.stops_newline_iff.2 hr)
  | @blockComment body gap rest hb _ ih =>
    obtain ⟨qs, hqs, htokens⟩ := ih hps
    refine ⟨⟨.gap, '/' :: '*' :: body⟩ :: qs, ?_, fun front => ?_⟩
    · have hcomment := Piece.Spells.cons (p := ⟨.gap, '/' :: '*' :: body⟩) (.blockComment hb) hqs
      rw [List.cons_append, List.cons_append, List.append_assoc]
      exact hcomment
    · rw [hgap, htokens, List.append_assoc]
      rfl

/-! ### Words -/

namespace Word

/-- The characters spell the word.  A number has the value of its decimal digits, which is a byte, and
less than the number of registers behind the register mark; names that are no mnemonics are those of
labels, and define them with a colon. -/
inductive Spelling : Word → List Char → Prop
  | newline : Spelling .newline ['\n']
  | semicolon : Spelling .semicolon [';']
  | comma : Spelling .comma [',']
  | memory {n : Nat} {digits : List Char} (hn : Item.Numeral digits n) :
      Spelling (.operand (.memory n)) digits
  | literal {n : Nat} {digits : List Char} (hn : Item.Numeral digits n) :
      Spelling (.operand (.literal n)) ('#' :: digits)
  | register {n : Nat} {digits : List Char} (hn : Item.Numeral digits n) (hlt : n < registerCount) :
      Spelling (.operand (.register n)) ('R' :: digits)
  | mnemonic (m : Mnemonic) : Spelling (.mnemonic m) m.name.toList
  | label {name : String} (hn : Item.LabelName name) :
      Spelling (.operand (.label name)) name.toList
  | labelDefinition {name : String} (hn : Item.LabelName name) :
      Spelling .labelDefinition (name.toList ++ [':'])

/-- The word could not be longer with `rest` behind it: no digit follows a number, no character of
names follows a name, and no colon follows the name of a label. -/
def EndsBefore : Word → List Char → Prop
  | .operand (.label _), rest => Text.Stops Item.isNameChar rest ∧ rest.head? ≠ some ':'
  | .operand _, rest => Text.Stops Decimal.isDigit rest
  | .mnemonic _, rest => Text.Stops Item.isNameChar rest
  | _, _ => True

variable {word word' : Word} {chars rest : List Char}

theorem endsBefore_nil (word : Word) : word.EndsBefore [] := by
  have hstops : ∀ p : Char → Bool, Text.Stops p [] := by
    intro p c hc
    cases hc
  cases word with
  | operand o =>
    cases o with
    | label name => exact ⟨hstops _, by simp⟩
    | register n | memory n | literal n => exact hstops _
  | mnemonic m => exact hstops _
  | comma | semicolon | newline | labelDefinition | endOfInput => trivial

/-- What is spelled in front of a rest is the item of a word that ends there. -/
theorem Spelling.exists_item (h : word.Spelling chars) (hr : word.EndsBefore rest) :
    ∃ i : Item, i.word? = some word ∧ i.Spelling chars rest := by
  cases h with
  | newline => exact ⟨.token .newline, rfl, .newline⟩
  | semicolon => exact ⟨.token .semicolon, rfl, .semicolon⟩
  | comma => exact ⟨.token .comma, rfl, .comma⟩
  | memory hn => exact ⟨.token _, rfl, .memory hn hr⟩
  | literal hn => exact ⟨.token _, rfl, .literal hn hr⟩
  | register hn hlt => exact ⟨.token _, rfl, .register hn hlt hr⟩
  | mnemonic m => exact ⟨.token _, rfl, .mnemonic hr⟩
  | label hn => exact ⟨.token _, rfl, .label hn hr.1 hr.2⟩
  | @labelDefinition name hn => exact ⟨.definition name, rfl, .definition hn⟩

/-- **A spelling is the spelling of one word only.** -/
theorem Spelling.unique (h : word.Spelling chars) (h' : word'.Spelling chars) : word = word' := by
  obtain ⟨i, hi, hs⟩ := h.exists_item (endsBefore_nil word)
  obtain ⟨i', hi', hs'⟩ := h'.exists_item (endsBefore_nil word')
  obtain ⟨c, cs, rfl⟩ := List.exists_cons_of_ne_nil hs.text_ne_nil
  -- both items are what is read at the front of the spelling
  have hread := (hs.read_eq (List.append_nil _)).symm.trans (hs'.read_eq (List.append_nil _))
  obtain rfl : i = i' := congrArg Reading.item (Except.ok.inj hread)
  exact Option.some.inj (hi.symm.trans hi')

theorem Spelling.ne_endOfInput (h : word.Spelling chars) : word ≠ .endOfInput := by
  rintro rfl
  cases h

end Word

/-- An item with a word spells that word, and ends where it does. -/
theorem Item.Spelling.word_spelling {i : Item} {chars rest : List Char} {word : Word}
    (h : i.Spelling chars rest) (hw : i.word? = some word) :
    word.Spelling chars ∧ word.EndsBefore rest := by
  cases h with
  | newline =>
    cases hw
    exact ⟨.newline, trivial⟩
  | semicolon =>
    cases hw
    exact ⟨.semicolon, trivial⟩
  | comma =>
    cases hw
    exact ⟨.comma, trivial⟩
  | blank _ _ | lineComment _ _ | blockComment _ => cases hw
  | memory hn hr =>
    cases hw
    exact ⟨.memory hn, hr⟩
  | literal hn hr =>
    cases hw
    exact ⟨.literal hn, hr⟩
  | register hn hlt hr =>
    cases hw
    exact ⟨.register hn hlt, hr⟩
  | mnemonic hr =>
    cases hw
    exact ⟨.mnemonic _, hr⟩
  | label hn hr hc =>
    cases hw
    exact ⟨.label hn, hr, hc⟩
  | definition hn =>
    cases hw
    exact ⟨.labelDefinition hn, trivial⟩

/-! ### Texts of words and gaps -/

/-- The text behind `front` is woven of gaps and the spellings of the tokens: a gap, a token, a gap,
and so on to a last gap.  Each token could not be longer, and it is placed where its spelling
starts. -/
inductive Token.Woven (w : Nat) : List Char → List Token → List Char → Prop
  | gap {front gap : List Char} (hg : Text.Gap gap []) : Woven w front [] gap
  | word {front gap rest : List Char} {t : Token} {ts : List Token}
      (hg : Text.Gap gap (t.lexeme.toList ++ rest)) (hs : t.value.Spelling t.lexeme.toList)
      (hr : t.value.EndsBefore rest) (hp : t.pos = .behind w (front ++ gap))
      (h : Woven w (front ++ gap ++ t.lexeme.toList) ts rest) :
      Woven w front (t :: ts) (gap ++ (t.lexeme.toList ++ rest))

namespace Token.Woven

variable {w : Nat} {front chars text : List Char} {ts : List Token}

/-- A blank or a comment in front is one more part of the first gap. -/
theorem cons_gap (h : Woven w (front ++ chars) ts text) (hs : Item.Spelling .gap chars text) :
    Woven w front ts (chars ++ text) := by
  cases h with
  | @gap _ gap hg =>
    refine .gap (hg.cons ?_)
    rwa [List.append_nil]
  | @word _ gap rest t ts hg hspelled hr hp h =>
    rw [List.append_assoc] at hp
    rw [List.append_assoc front] at h
    rw [← List.append_assoc]
    exact .word (hg.cons hs) hspelled hr hp h

/-- A word in front is the first token. -/
theorem cons_word {i : Item} {word : Word} (h : Woven w (front ++ chars) ts text)
    (hs : i.Spelling chars text) (hw : i.word? = some word) :
    Woven w front (⟨word, String.ofList chars, .behind w front⟩ :: ts) (chars ++ text) := by
  obtain ⟨hspelled, hr⟩ := hs.word_spelling hw
  have hchars : (String.ofList chars).toList = chars := String.toList_ofList
  have hword := @Woven.word w front [] text ⟨word, String.ofList chars, .behind w front⟩ ts .nil
  rw [List.append_nil, List.nil_append, hchars] at hword
  exact hword hspelled hr rfl h

/-- Each token is spelled as its word. -/
theorem spelling (h : Woven w front ts text) : ∀ t ∈ ts, t.value.Spelling t.lexeme.toList := by
  induction h with
  | gap _ => simp
  | word _ hs _ _ _ ih => exact List.forall_mem_cons.2 ⟨hs, ih⟩

end Token.Woven

variable {w : Nat} {front text : List Char} {ps : List Piece} {ts ts' : List Token}

/-- **Pieces that spell a text weave it** of their tokens and gaps. -/
theorem Piece.Spells.woven (h : Spells ps text) (w : Nat) (front : List Char) :
    Token.Woven w front (tokens w (.behind w front) ps) text := by
  induction h generalizing front with
  | nil => exact .gap .nil
  | @cons p ps rest hp _ ih =>
    have hrest := ih (front ++ p.text)
    rw [tokens, Position.after_behind]
    cases hw : p.item.word? with
    | none =>
      rw [item_eq_gap hw] at hp
      rw [token?, hw]
      exact hrest.cons_gap hp
    | some word =>
      rw [token?, hw]
      exact hrest.cons_word hp hw

/-- Words and gaps are spelled by pieces, and the tokens are those of the pieces. -/
theorem Token.Woven.exists_spells (h : Woven w front ts text) :
    ∃ ps, Piece.Spells ps text ∧ Piece.tokens w (.behind w front) ps = ts := by
  induction h with
  | @gap front gap hg =>
    obtain ⟨qs, hqs, htokens⟩ := hg.exists_spells .nil w
    rw [List.append_nil] at hqs
    exact ⟨qs, hqs, htokens front⟩
  | @word front gap rest t ts hg hs hr hp _ ih =>
    obtain ⟨ps, hps, htokens⟩ := ih
    obtain ⟨i, hi, hspelled⟩ := hs.exists_item hr
    obtain ⟨qs, hqs, hgap⟩ := hg.exists_spells (.cons (p := ⟨i, t.lexeme.toList⟩) hspelled hps) w
    refine ⟨qs, hqs, ?_⟩
    rw [hgap, Piece.tokens, Position.after_behind, htokens, Piece.token?, hi, ← hp]
    show _ :: ts = t :: ts
    rw [String.ofList_toList]

/-- **There is one way at most to see a text as words and gaps.** -/
theorem Token.Woven.unique (h : Woven w front ts text) (h' : Woven w front ts' text) : ts = ts' := by
  obtain ⟨ps, hps, rfl⟩ := h.exists_spells
  obtain ⟨ps', hps', rfl⟩ := h'.exists_spells
  obtain rfl : ps = ps' := congrArg Prod.fst (hps.cut.symm.trans hps'.cut)
  rfl

/-- **A text that is read is woven of its words and gaps**, and in no other way.  Its characters are
those of the gaps and of the spellings of the tokens in front of the end of the input, in order; a gap
holds blanks and comments only; no spelling could be longer; each token says what its spelling does;
and there is one end of the input, which is the last token and behind all of the text. -/
theorem text_of_words_and_gaps {s : TokenStream} (h : TokenStream.ofText w text = .ok s) :
    ∃ words, s.tokens = words ++ [⟨.endOfInput, "", .behind w text⟩] ∧
      Token.Woven w [] words text ∧
      (∀ t ∈ words, t.value ≠ .endOfInput ∧
        ∀ word : Word, word.Spelling t.lexeme.toList ↔ word = t.value) ∧
      ∀ others, Token.Woven w [] others text → others = words := by
  obtain ⟨ps, hcut, -, rfl⟩ := TokenStream.ofText_eq_ok_iff.1 h
  have hspells := Piece.cut_eq_none_iff.1 hcut
  have hwoven : Token.Woven w [] (Piece.tokens w .start ps) text := hspells.woven w []
  have hend : Piece.finish w .start ps = .behind w text := by
    rw [← hspells.textOf_eq, ← Position.after_start]
    rfl
  refine ⟨Piece.tokens w .start ps, by rw [← hend]; rfl, hwoven, fun t ht => ?_,
    fun others hothers => hothers.unique hwoven⟩
  have hspelled := hwoven.spelling t ht
  refine ⟨hspelled.ne_endOfInput, fun word => ⟨fun hword => hword.unique hspelled, ?_⟩⟩
  rintro rfl
  exact hspelled

/-- Words that touch each other, and comments with the characters of other marks in them. -/
theorem text_of_words_and_gaps_touching :
    let text := "x:y:/*/*/ADD R5R6//a,".toList
    let words : List Token := [⟨.labelDefinition, "x:", ⟨1, 1⟩⟩, ⟨.labelDefinition, "y:", ⟨1, 3⟩⟩,
      ⟨.mnemonic .add, "ADD", ⟨1, 10⟩⟩, ⟨.operand (.register 5), "R5", ⟨1, 14⟩⟩,
      ⟨.operand (.register 6), "R6", ⟨1, 16⟩⟩]
    (∃ s, TokenStream.ofText 4 text = .ok s ∧
        s.tokens = words ++ [⟨.endOfInput, "", .behind 4 text⟩]) ∧
      Token.Woven 4 [] words text ∧ ∀ others, Token.Woven 4 [] others text → others = words := by
  intro text words
  obtain ⟨s, hs, hchecked⟩ := exists_ok_of_any (x := TokenStream.ofText 4 text)
    (p := fun s => decide (s.tokens.dropLast = words)) (by decide +kernel)
  have hwords := of_decide_eq_true hchecked
  obtain ⟨found, htokens, hwoven, -, hunique⟩ := text_of_words_and_gaps hs
  obtain rfl : found = words := by
    rw [← hwords, htokens, List.dropLast_concat]
  exact ⟨⟨s, hs, htokens⟩, hwoven, hunique⟩

end Asm256
