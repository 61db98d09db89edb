/-
Where tokens, labels and errors are placed.

All of them are placed by counting what stands in front of them in the text
(`Position.behind`), in front of:
* `Token.Behind` — the first character of a token, or the end of the text;
* `Label.Behind` — the first character of the name where a label is defined;
* `SourceError.Behind` — what an error is about: a character or a word that is no item
  (`Item.Misspelling`) or not admitted, a token that does not fit, a label that is not defined, or a
  mnemonic with operands of no form.

The main result is `places_by_offset`.
-/
import Asm256.Instruction.Table
import Asm256.Proofs.Source.Numbers
import Asm256.Proofs.Source.Parsing
import Asm256.Proofs.Source.Places

namespace Asm256

variable {tree : SignatureTree} {w : Nat} {text : List Char}

/-! ### Tokens and labels -/

/-- The token stands behind `front`: it is spelled there, or it is the end of the input; and
`before` are the tokens of `front`. -/
inductive Token.Behind (w : Nat) (text : List Char) (before : List Token) (t : Token) :
    List Char → Prop
  | word {ps : List Piece} {i : Item} {rest : List Char}
      (hleads : Piece.Leads ps text (t.lexeme.toList ++ rest))
      (hbefore : Piece.tokens w .start ps = before)
      (hs : Item.Spelling i t.lexeme.toList rest) (hw : i.word? = some t.value) :
      Behind w text before t (Piece.textOf ps)
  | endOfInput {ps : List Piece} (hs : Piece.Spells ps text)
      (hbefore : Piece.tokens w .start ps = before) (ht : t.value = .endOfInput) :
      Behind w text before t text

/-- The label is defined behind `front`, where its name stands with a colon, and `before` are the
labels that are defined in `front`. -/
inductive Label.Behind (w : Nat) (text : List Char) (before : LabelTable) (l : Label) :
    List Char → Prop
  | definition {ps : List Piece} {rest : List Char}
      (hleads : Piece.Leads ps text (l.name.toList ++ ':' :: rest))
      (hbefore : Piece.labels w .start 0 ps = before) (hname : Item.LabelName l.name) :
      Behind w text before l (Piece.textOf ps)

theorem Label.Behind.front_isPrefix {before : LabelTable} {l : Label} {front : List Char}
    (h : l.Behind w text before front) : front <+: text := by
  cases h with
  | definition hleads _ _ => exact ⟨_, hleads.text_eq.symm⟩

theorem Token.Behind.front_isPrefix {before : List Token} {t : Token} {front : List Char}
    (h : t.Behind w text before front) : front <+: text := by
  cases h with
  | word hleads _ _ _ => exact ⟨_, hleads.text_eq.symm⟩
  | endOfInput _ _ _ => exact List.prefix_refl _

namespace Piece

variable {ps : List Piece}

/-- What a piece amounts to is found at its spot, and what is in front of it at the spots of the
pieces in front. -/
theorem exists_of_filterMap_spots {β : Type} {f : Spot → Option β} {before after : List β} {b : β}
    (h : (spots [] 0 ps).filterMap f = before ++ b :: after) : ∃ s qs rs, ps = qs ++ s.piece :: rs ∧
      (spots [] 0 qs).filterMap f = before ∧ s.front = textOf qs ∧ f s = some b := by
  obtain ⟨front, back, hspots, hfront, hback⟩ := List.filterMap_eq_append_iff.1 h
  obtain ⟨gaps, s, others, rfl, hgaps, hs, -⟩ := List.filterMap_eq_cons_iff.1 hback
  rw [← List.append_assoc] at hspots
  obtain ⟨qs, rs, hps, hqs, htext, -⟩ := spots_eq_append_cons hspots
  refine ⟨s, qs, rs, hps, ?_, by simpa using htext, hs⟩
  rw [← hqs, List.filterMap_append, hfront, List.filterMap_eq_nil_iff.2 hgaps, List.append_nil]

/-- A token of pieces stands behind the pieces in front of it. -/
theorem Spells.token_behind (h : Spells ps text) {before after : List Token} {t : Token}
    (ht : tokens w .start ps = before ++ t :: after) :
    ∃ front, t.Behind w text before front ∧ t.pos = .behind w front := by
  rw [← Position.behind_nil w, tokens_eq w [] 0] at ht
  obtain ⟨s, qs, rs, rfl, hbefore, hfront, hs⟩ := exists_of_filterMap_spots ht
  obtain ⟨word, hw, rfl⟩ := mem_token? hs
  obtain ⟨rest, hleads, hspelled⟩ := h.leads
  rw [← tokens_eq, Position.behind_nil] at hbefore
  rw [← String.toList_ofList (l := s.piece.text)] at hleads hspelled
  exact ⟨textOf qs, .word hleads hbefore hspelled hw, congrArg (Position.behind w) hfront⟩

/-- A label of pieces is defined behind the pieces in front of its definition. -/
theorem Spells.label_behind (h : Spells ps text) {before after : LabelTable} {l : Label}
    (hl : labels w .start 0 ps = before ++ l :: after) :
    ∃ front, l.Behind w text before front ∧ l.pos = .behind w front := by
  rw [← Position.behind_nil w, labels_eq] at hl
  obtain ⟨s, qs, rs, rfl, hbefore, hfront, hs⟩ := exists_of_filterMap_spots hl
  obtain ⟨rest, hleads, hspelled⟩ := h.leads
  rw [← labels_eq, Position.behind_nil] at hbefore
  obtain ⟨front, address, item, chars⟩ := s
  cases item with
  | gap | token word => cases hs
  | definition name =>
    cases hs
    cases hspelled with
    | definition hname =>
      have hdefined : Leads qs text (name.toList ++ ':' :: rest) := by
        simpa using hleads
      exact ⟨textOf qs, .definition hdefined hbefore hname, congrArg (Position.behind w) hfront⟩

end Piece

/-- **Every token stands behind what is in front of its first character.** -/
theorem TokenStream.token_behind {s : TokenStream} (hs : TokenStream.ofText w text = .ok s)
    {before after : List Token} {t : Token} (ht : s.tokens = before ++ t :: after) :
    ∃ front, t.Behind w text before front ∧ t.pos = .behind w front := by
  obtain ⟨ps, hcut, -, rfl⟩ := ofText_eq_ok_iff.1 hs
  have hspells := Piece.cut_eq_none_iff.1 hcut
  have hend : Piece.finish w .start ps = .behind w text := by
    rw [← hspells.textOf_eq, ← Position.after_start]
    rfl
  have htokens : Piece.tokens w .start ps ++ [⟨.endOfInput, "", Piece.finish w .start ps⟩] =
      before ++ t :: after := ht
  -- the token is the last one, or one of a piece
  rcases Statement.eq_or_exists_of_append_singleton htokens with
    ⟨rfl, rfl, rfl⟩ | ⟨others, -, hothers⟩
  · exact ⟨text, .endOfInput hspells rfl rfl, hend⟩
  · exact hspells.token_behind hothers

/-- **Every label is defined behind what is in front of its name.** -/
theorem TokenStream.label_behind {s : TokenStream} (hs : TokenStream.ofText w text = .ok s)
    {before after : LabelTable} {l : Label} (hl : s.labels = before ++ l :: after) :
    ∃ front, l.Behind w text before front ∧ l.pos = .behind w front := by
  obtain ⟨ps, hcut, -, rfl⟩ := ofText_eq_ok_iff.1 hs
  exact (Piece.cut_eq_none_iff.1 hcut).label_behind hl

/-! ### Errors in reading a text -/

/-- What an error is about, when it stands behind the pieces `ps` and the characters `skipped`, and
`src` is behind the pieces: the front of `src` is no item, its item is the first that makes the code
too large, or it defines a label again or where no statement can start. -/
inductive LexError.Blames (w : Nat) (ps : List Piece) : LexError → List Char → List Char → Prop
  | misspelling {e : LexError} {src skipped : List Char}
      (h : Item.Misspelling src (.error e skipped)) : Blames w ps e src skipped
  | programTooLarge {word : Word} {text rest : List Char}
      (hs : Item.Spelling (.token word) text rest) (hsize : word.size = 1)
      (hfull : Piece.size ps = memorySize) : Blames w ps .programTooLarge (text ++ rest) []
  | duplicateLabel {name : String} {rest : List Char} {first : Label}
      (hname : Item.LabelName name) (hfirst : first ∈ Piece.labels w .start 0 ps)
      (heq : first.name = name) :
      Blames w ps (.duplicateLabel name (some first.pos.line)) (name.toList ++ ':' :: rest) []
  | misplacedLabel {name : String} {rest : List Char} (hname : Item.LabelName name)
      (hplace : (ps.foldl (Tally.extend w) {}).atBoundary = false) :
      Blames w ps (.misplacedLabel name) (name.toList ++ ':' :: rest) []

/-- An error stands in front of what is wrong. -/
theorem Item.Misspelling.skipped_isPrefix {src skipped : List Char} {e : LexError}
    (h : Misspelling src (.error e skipped)) : skipped <+: src := by
  cases h with
  | valueTooLarge hnumber hv =>
    rw [hnumber.eq, List.append_assoc]
    exact List.prefix_append _ _
  | _ => exact List.nil_prefix

theorem LexError.Blames.skipped_isPrefix {ps : List Piece} {e : LexError} {src skipped : List Char}
    (h : e.Blames w ps src skipped) : skipped <+: src := by
  cases h with
  | misspelling h => exact h.skipped_isPrefix
  | _ => exact List.nil_prefix

namespace Tally

variable {t t' : Tally} {rest : List Char} {ps : List Piece}

/-- What has been scanned is spelled by admissible pieces, and the tally is theirs. -/
theorem Scans.exists_pieces (h : Scans w t text t' rest) : ∃ ps, Piece.Leads ps text rest ∧
    Piece.Admissible w t ps ∧ t' = ps.foldl (extend w) t := by
  induction h with
  | refl => exact ⟨[], .nil, trivial, rfl⟩
  | @step t t₁ t₂ c cs rest r hr ha _ ih =>
    obtain ⟨hadmits, rfl⟩ := add_eq_ok_iff.1 ha
    obtain ⟨ps, hleads, hadmissible, rfl⟩ := ih
    rw [← Item.text_append_rest hr]
    exact ⟨⟨r.item, r.text⟩ :: ps, .cons (Item.spelling_of_read hr) hleads, ⟨hadmits, hadmissible⟩, rfl⟩

/-- What an item is about that the tally of pieces does not take. -/
theorem blames_of_addItem {i : Item} {chars rest : List Char} {e : LexError}
    (ha : Piece.Admissible w {} ps) (hs : Item.Spelling i chars rest)
    (h : (ps.foldl (extend w) {}).addItem ⟨i, chars⟩ = .error e) :
    e.Blames w ps (chars ++ rest) [] := by
  have hcount : (ps.foldl (extend w) {}).byteCount = Piece.size ps := by
    rw [foldl_extend_byteCount]
    exact Nat.zero_add _
  cases i with
  | gap => cases h
  | token word =>
    rw [addItem, hcount] at h
    simp only at h
    split at h
    · next hlt =>
      cases h
      -- what is in front fits, so a word of one byte is too large only behind all 256
      have hle := ((Piece.admissible_iff (Nat.zero_le _)).1 ha).1
      have hword : word.size ≤ 1 := by
        cases word <;> simp [Word.size]
      rw [Nat.zero_add] at hle
      exact .programTooLarge hs (by omega) (by omega)
    · cases h
  | definition name =>
    obtain ⟨rfl, hname⟩ : chars = name.toList ++ [':'] ∧ Item.LabelName name := by
      cases hs with
      | definition hname => exact ⟨rfl, hname⟩
    rw [List.append_assoc, List.singleton_append]
    simp only [addItem] at h
    split at h
    · next first hfirst =>
      cases h
      have hlabels := @foldl_extend_labels w {} ps
      refine .duplicateLabel hname ?_ (by simpa using List.find?_some hfirst)
      have hmem := List.mem_reverse.2 (List.mem_of_find?_eq_some hfirst)
      rw [hlabels] at hmem
      exact hmem
    · split at h
      · cases h
      · next hplace =>
        cases h
        exact .misplacedLabel hname (by simpa using hplace)

end Tally

/-- **An error in reading a text stands in front of what it is about.** -/
theorem TokenStream.exists_of_ofText_lexical {e : LexError} {pos : Position}
    (h : TokenStream.ofText w text = .error (.lexical e pos)) : ∃ ps src skipped,
      Piece.Leads ps text src ∧ Piece.Admissible w {} ps ∧ e.Blames w ps src skipped ∧
      pos = .behind w (Piece.textOf ps ++ skipped) := by
  rw [Tally.ofText_eq_scan] at h
  obtain ⟨t, src, hscans, hends⟩ := Tally.exists_end w {} text
  obtain ⟨ps, hleads, ha, rfl⟩ := hscans.exists_pieces
  have hpos : (ps.foldl (Tally.extend w) {}).pos = .behind w (Piece.textOf ps) := by
    rw [Tally.foldl_extend_pos, ← Position.after_start]
    rfl
  rw [h] at hends
  generalize hresult : Except.error (ScanError.lexical e pos) = result at hends
  cases hends with
  | finished => cases hresult
  | @refused c cs refusal hread =>
    cases refusal with
    | tooLong e' => cases hresult
    | error e' skipped =>
      cases hresult
      refine ⟨ps, _, skipped, hleads, ha, .misspelling (Item.misspelling_of_read hread), ?_⟩
      rw [hpos, Position.after_behind]
  | @misfit c cs r e' hread ha' =>
    cases hresult
    have hblames := Tally.blames_of_addItem ha (Item.spelling_of_read hread) ha'
    rw [Item.text_append_rest hread] at hblames
    exact ⟨ps, _, [], hleads, ha, hblames, by rw [hpos, List.append_nil]⟩

/-! ### Errors in tokens and statements -/

namespace Statement

variable {place next : Place} {t : Token} {ts : List Token} {e : ParseError}

/-- A token that does not fit is the one that the error is about. -/
theorem got_of_step (h : place.step t = .error e) : e.got = some t := by
  obtain ⟨value, lexeme, pos⟩ := t
  cases place <;> cases value <;> cases h <;> rfl

/-- An error in tokens with the end of the input among them is about a token, and it is the error for
all tokens that start as far as that one. -/
theorem exists_of_parseFrom_error (h : parseFrom place ts = .error e)
    (hend : ∃ t ∈ ts, t.value = .endOfInput) : ∃ before t after, ts = before ++ t :: after ∧
      e.got = some t ∧ ∀ after', parseFrom place (before ++ t :: after') = .error e := by
  obtain ⟨before, ss, last, hleads, ⟨rfl, -⟩ | ⟨t, after, rfl, hstep⟩⟩ :=
    exists_stop_of_parseFrom_error h
  · -- the tokens do not run out, for the end of the input is among them
    obtain ⟨t, hmem, ht⟩ := hend
    exact absurd ht (hleads.ne_endOfInput t hmem)
  · refine ⟨before, t, after, rfl, got_of_step hstep, fun after' => ?_⟩
    rw [hleads.parseFrom_append, parseFrom, hstep]
    rfl

/-- A statement that has no encoding has operands of no form, or an operand that names no label of
the table. -/
theorem exists_of_encode_error {labels : LabelTable} {s : Statement} {e : StatementError}
    (h : s.encode tree labels = .error e) :
    (tree.find? s.mnemonic.value s.kinds = none ∧ e = .invalidSignature s.mnemonic.pos
      s.mnemonic.value s.kinds (tree.forms s.mnemonic.value)) ∨
    ∃ o ∈ s.operands, ∃ name, o.value = .label name ∧ labels.find? name = none ∧
      e = .undefinedLabel o.toToken := by
  rcases Statement.encode_eq_error_iff.1 h with hsignature | ⟨-, before, o, after, heq, -, ho, rfl⟩
  · exact .inl hsignature
  · obtain ⟨name, hname, hnone⟩ := Operand.not_resolves_iff.1 ho
    exact .inr ⟨o, by simp [heq], name, hname, hnone, rfl⟩

end Statement

/-- Statements that have no image because of one of them. -/
theorem Image.exists_of_encode_error {labels : LabelTable} {ss : List Statement} {e : StatementError}
    (h : Image.encode tree labels ss = .error (.statement e)) :
    ∃ s ∈ ss, s.encode tree labels = .error e := by
  rw [Image.encode] at h
  cases hf : ss.foldlM (Writer.writeStatement tree labels) .empty with
  | ok writer =>
    rw [hf] at h
    cases h
  | error e' =>
    rw [hf] at h
    cases h
    obtain ⟨writer, s, hs, hwrite⟩ := exists_of_foldlM_eq_error hf
    unfold Writer.writeStatement at hwrite
    split at hwrite
    · next hencode =>
      cases hwrite
      exact ⟨s, hs, hencode⟩
    · split at hwrite <;> cases hwrite

/-- Which stage an error of the program comes from. -/
theorem stage_of_assemble {e : SourceError} (h : assemble tree w text = .error (.source e)) :
    (∃ l pos, TokenStream.ofText w text = .error (.lexical l pos) ∧ e = .lexical l pos) ∨
    ∃ s, TokenStream.ofText w text = .ok s ∧
      ((∃ p, Statement.parse s.tokens = .error p ∧ e = .parse p) ∨
        ∃ ss, Statement.parse s.tokens = .ok ss ∧ ∃ m,
          Image.encode tree s.labels ss = .error (.statement m) ∧ e = .statement m) := by
  unfold assemble scanText parseTokens encodeStatements at h
  cases hscan : TokenStream.ofText w text with
  | error l =>
    rw [hscan] at h
    cases l with
    | lexical l pos =>
      cases h
      exact .inl ⟨l, pos, rfl, rfl⟩
    | tooLong t => cases h
  | ok s =>
    rw [hscan] at h
    refine .inr ⟨s, rfl, ?_⟩
    cases hparse : Statement.parse s.tokens with
    | error p =>
      simp only [Except.mapError, bind, Except.bind, hparse] at h
      cases h
      exact .inl ⟨p, rfl, rfl⟩
    | ok ss =>
      simp only [Except.mapError, bind, Except.bind, hparse] at h
      refine .inr ⟨ss, rfl, ?_⟩
      cases himage : Image.encode tree s.labels ss with
      | error m =>
        rw [himage] at h
        cases m with
        | statement m =>
          cases h
          exact ⟨m, rfl, rfl⟩
        | full => cases h
      | ok i =>
        rw [himage] at h
        simp only at h
        split at h <;> cases h

/-! ### Errors of the program -/

/-- What an error of the program is about stands behind `front`. -/
inductive SourceError.Behind (tree : SignatureTree) (w : Nat) (text : List Char) :
    SourceError → List Char → Prop
  | lexical {e : LexError} {pos : Position} {ps : List Piece} {src skipped : List Char}
      (hleads : Piece.Leads ps text src) (ha : Piece.Admissible w {} ps)
      (hblames : e.Blames w ps src skipped) :
      Behind tree w text (.lexical e pos) (Piece.textOf ps ++ skipped)
  | parse {e : ParseError} {s : TokenStream} {before after : List Token} {t : Token}
      {front : List Char} (hs : TokenStream.ofText w text = .ok s)
      (ht : s.tokens = before ++ t :: after) (hfront : t.Behind w text before front)
      (hgot : e.got = some t)
      (herror : ∀ after', Statement.parse (before ++ t :: after') = .error e) :
      Behind tree w text (.parse e) front
  | undefinedLabel {s : TokenStream} {ss : List Statement} {st : Statement} {o : Spelled Operand}
      {name : String} {before after : List Token} {front : List Char}
      (hs : TokenStream.ofText w text = .ok s) (hss : Statement.parse s.tokens = .ok ss)
      (hst : st ∈ ss) (ho : o ∈ st.operands) (hname : o.value = .label name)
      (hfind : s.labels.find? name = none) (ht : s.tokens = before ++ o.toToken :: after)
      (hfront : o.toToken.Behind w text before front) :
      Behind tree w text (.statement (.undefinedLabel o.toToken)) front
  | invalidSignature {s : TokenStream} {ss : List Statement} {st : Statement}
      {before after : List Token} {front : List Char}
      (hs : TokenStream.ofText w text = .ok s) (hss : Statement.parse s.tokens = .ok ss)
      (hst : st ∈ ss) (hfind : tree.find? st.mnemonic.value st.kinds = none)
      (ht : s.tokens = before ++ st.head :: after)
      (hfront : st.head.Behind w text before front) :
      Behind tree w text (.statement (.invalidSignature st.mnemonic.pos st.mnemonic.value st.kinds
        (tree.forms st.mnemonic.value))) front

/-- The error is about a part of the text, or the end of it. -/
theorem SourceError.Behind.front_isPrefix {e : SourceError} {front : List Char}
    (h : e.Behind tree w text front) : front <+: text := by
  cases h with
  | lexical hleads _ hblames =>
    rw [hleads.text_eq]
    exact (List.prefix_append_right_inj _).2 hblames.skipped_isPrefix
  | parse _ _ hfront _ _ => exact hfront.front_isPrefix
  | undefinedLabel _ _ _ _ _ _ _ hfront => exact hfront.front_isPrefix
  | invalidSignature _ _ _ _ _ hfront => exact hfront.front_isPrefix

/-- A token stream ends with the end of the input. -/
theorem TokenStream.exists_endOfInput {s : TokenStream} (hs : TokenStream.ofText w text = .ok s) :
    ∃ t ∈ s.tokens, t.value = .endOfInput := by
  obtain ⟨ps, -, -, rfl⟩ := ofText_eq_ok_iff.1 hs
  exact ⟨_, List.mem_append_right _ (List.mem_singleton_self _), rfl⟩

/-- **An error of the program is placed behind what is in front of the part it is about.** -/
theorem SourceError.exists_behind {e : SourceError} (h : assemble tree w text = .error (.source e)) :
    ∃ front, e.Behind tree w text front ∧
      e.diagnostic.line = some ((Position.behind w front).line : Int) ∧
      e.diagnostic.column = some ((Position.behind w front).column : Int) := by
  rcases stage_of_assemble h with ⟨l, pos, hscan, rfl⟩ | ⟨s, hs, hstage⟩
  · obtain ⟨ps, src, skipped, hleads, ha, hblames, rfl⟩ :=
      TokenStream.exists_of_ofText_lexical hscan
    exact ⟨_, .lexical hleads ha hblames, rfl, rfl⟩
  rcases hstage with ⟨p, hparse, rfl⟩ | ⟨ss, hss, m, hm, rfl⟩
  · obtain ⟨before, t, after, ht, hgot, herror⟩ :=
      Statement.exists_of_parseFrom_error hparse (TokenStream.exists_endOfInput hs)
    obtain ⟨front, hfront, hpos⟩ := TokenStream.token_behind hs ht
    refine ⟨front, .parse hs ht hfront hgot herror, ?_⟩
    rw [← hpos]
    simp [diagnostic, ParseError.diagnostic, hgot, Diagnostic.located]
  · obtain ⟨st, hst, hencode⟩ := Image.exists_of_encode_error hm
    obtain ⟨hhead, hoperands⟩ := (Statement.parse_eq_ok_iff.1 hss).mem st hst
    rcases Statement.exists_of_encode_error hencode with ⟨hfind, rfl⟩ | ⟨o, ho, name, hname, hfind, rfl⟩
    · obtain ⟨before, after, ht⟩ := List.append_of_mem hhead
      obtain ⟨front, hfront, hpos⟩ := TokenStream.token_behind hs ht
      refine ⟨front, .invalidSignature hs hss hst hfind ht hfront, ?_⟩
      rw [← hpos]
      exact ⟨rfl, rfl⟩
    · obtain ⟨before, after, ht⟩ := List.append_of_mem (hoperands o ho)
      obtain ⟨front, hfront, hpos⟩ := TokenStream.token_behind hs ht
      refine ⟨front, .undefinedLabel hs hss hst ho hname hfind ht hfront, ?_⟩
      rw [← hpos]
      exact ⟨rfl, rfl⟩

/-- **Tokens, labels and errors are placed by their offsets**, for every text and every tab width:
the place is found by counting the line feeds in front, and the characters behind the last of them,
where a tab counts for its width.  A token stands behind the text in front of its first character,
with the tokens of that text in front of it, and the end of the input behind all of the text; a label
stands where its name does; and an error of the program has a place, which is in front of the part of
the text that it is about. -/
theorem places_by_offset (tree : SignatureTree) (w : Nat) (text : List Char) :
    (∀ s, TokenStream.ofText w text = .ok s →
      (∀ before t after, s.tokens = before ++ t :: after →
        ∃ front, t.Behind w text before front ∧ front <+: text ∧ t.pos = .behind w front) ∧
      ∀ before l after, s.labels = before ++ l :: after →
        ∃ front, l.Behind w text before front ∧ front <+: text ∧ l.pos = .behind w front) ∧
    ∀ e, assemble tree w text = .error (.source e) →
      ∃ front, e.Behind tree w text front ∧ front <+: text ∧
        e.diagnostic.line = some ((Position.behind w front).line : Int) ∧
        e.diagnostic.column = some ((Position.behind w front).column : Int) := by
  refine ⟨fun s hs => ⟨fun before t after ht => ?_, fun before l after hl => ?_⟩, fun e he => ?_⟩
  · obtain ⟨front, hfront, hpos⟩ := TokenStream.token_behind hs ht
    exact ⟨front, hfront, hfront.front_isPrefix, hpos⟩
  · obtain ⟨front, hfront, hpos⟩ := TokenStream.label_behind hs hl
    exact ⟨front, hfront, hfront.front_isPrefix, hpos⟩
  · obtain ⟨front, hfront, hplace⟩ := SourceError.exists_behind he
    exact ⟨front, hfront, hfront.front_isPrefix, hplace⟩

/-- Behind a comment with a tab and behind a tab of width 8: a label, a branch to a label that is not
defined, and a value that is too large. -/
theorem places_by_offset_tabs :
    (∃ s, TokenStream.ofText 8 "/*\n\t*/\ty:".toList = .ok s ∧ ∃ l front, s.labels = [l] ∧
      l.Behind 8 "/*\n\t*/\ty:".toList [] front ∧ l.pos = ⟨2, 19⟩ ∧
      l.pos = .behind 8 front) ∧
    (∃ e, assemble .standard 8 "\tB z".toList = .error (.source e) ∧
      e.diagnostic.line = some 1 ∧ e.diagnostic.column = some 11 ∧ ∃ front,
        e.Behind .standard 8 "\tB z".toList front ∧ (Position.behind 8 front).column = 11) ∧
    ∃ e, assemble .standard 8 "\tMOV R1, #300".toList = .error (.source e) ∧
      e.diagnostic.line = some 1 ∧ e.diagnostic.column = some 18 ∧ ∃ front,
        e.Behind .standard 8 "\tMOV R1, #300".toList front ∧ (Position.behind 8 front).column = 18 := by
  have herror : ∀ (text : List Char) (column : Nat),
      (sourceError? (assemble .standard 8 text)).any (fun e =>
        decide (e.diagnostic.line = some 1) &&
          decide (e.diagnostic.column = some (column : Int))) = true →
      ∃ e, assemble .standard 8 text = .error (.source e) ∧
        e.diagnostic.line = some 1 ∧ e.diagnostic.column = some (column : Int) ∧ ∃ front,
          e.Behind .standard 8 text front ∧ (Position.behind 8 front).column = column := by
    intro text column h
    obtain ⟨e, he, hplace⟩ := exists_source_of_any h
    rw [Bool.and_eq_true, decide_eq_true_eq, decide_eq_true_eq] at hplace
    obtain ⟨-, herrors⟩ := places_by_offset .standard 8 text
    obtain ⟨front, hfront, -, -, hcolumn⟩ := herrors e he
    rw [hplace.2] at hcolumn
    exact ⟨e, he, hplace.1, hplace.2, front, hfront, by simpa using hcolumn.symm⟩
  refine ⟨?_, herror _ 11 (by decide +kernel), herror _ 18 (by decide +kernel)⟩
  obtain ⟨s, hs, hlabels⟩ := exists_ok_of_any
    (x := TokenStream.ofText 8 "/*\n\t*/\ty:".toList)
    (p := fun s => decide (s.labels = [⟨"y", 0, ⟨2, 19⟩⟩])) (by decide +kernel)
  obtain ⟨hstream, -⟩ := places_by_offset .standard 8 "/*\n\t*/\ty:".toList
  obtain ⟨-, hlabel⟩ := hstream s hs
  have hlabels := of_decide_eq_true hlabels
  obtain ⟨front, hfront, -, hpos⟩ := hlabel [] _ [] hlabels
  exact ⟨s, hs, _, front, hlabels, hfront, rfl, hpos⟩

end Asm256
