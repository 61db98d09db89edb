/-
Bytes and labels in step with the tokens.

While a text is read, bytes are counted, labels are entered in a table and tokens are listed.  All
three say the same of the text so far (`Tally.Tracks`), and what is objected to is a matter of the
tokens alone (`Token.Objection`):
* `Tally.Tracks.extend` — a piece that the tally takes keeps them in step;
* `Tally.Tracks.objection` — a piece that it does not take is the token objected to;
* `Tally.Tracks.run` — so the pieces of a text are all taken, or the first objection is the error;
* `Token.first_objection_unique` — and there is one first objection at most.

The main result is `bytes_and_labels`.
-/
import Asm256.Proofs.Source.Parsing
import Asm256.Proofs.Source.Words

namespace Asm256

open Statement (isCode eq_or_exists_of_append_singleton)

/-! ### Objections to tokens -/

namespace Token

/-- The token defines a label. -/
def isDefinition (t : Token) : Bool := t.value == .labelDefinition

/-- The token is the definition of the label with this name. -/
def Defines (t : Token) (name : String) : Prop :=
  t.isDefinition ∧ t.lexeme = name ++ ":"

instance (t : Token) (name : String) : Decidable (t.Defines name) :=
  inferInstanceAs (Decidable (_ ∧ _))

/-- A definition may stand behind the tokens: the last of them that defines no label is a line feed
or a semicolon, or there is none. -/
def LineStart (before : List Token) : Prop :=
  ∀ t ∈ before.reverse.find? (fun t => !t.isDefinition), t.value = .newline ∨ t.value = .semicolon

/-- What is wrong with a token behind others: it defines a label again, it defines a new label where
none may be defined, or it is one byte more than fits. -/
inductive Objection (before : List Token) (t : Token) : LexError → Prop
  | duplicateLabel {name : String} {first : Token} (ht : t.Defines name)
      (hfirst : before.find? (fun u => u.Defines name) = some first) :
      Objection before t (.duplicateLabel name (some first.pos.line))
  | misplacedLabel {name : String} (ht : t.Defines name)
      (hnew : before.find? (fun u => u.Defines name) = none) (hplace : ¬ LineStart before) :
      Objection before t (.misplacedLabel name)
  | programTooLarge (ht : isCode t) (hfull : before.countP isCode = memorySize) :
      Objection before t .programTooLarge

/-- There is no objection to any of the tokens. -/
def Clean (ts : List Token) : Prop :=
  ∀ before t after, ts = before ++ t :: after → ∀ e, ¬ Objection before t e

variable {before before' after after' ts : List Token} {t t' : Token} {e e' : LexError}
  {name name' : String}

theorem Defines.name_unique (h : t.Defines name) (h' : t.Defines name') : name = name' :=
  String.append_left_inj ":" |>.1 (h.2.symm.trans h'.2)

theorem Defines.isCode_eq_false (h : t.Defines name) : isCode t = false :=
  Statement.isCode_eq_false (by rw [eq_of_beq h.1]; rfl)

theorem clean_nil : Clean [] := by
  intro before t after h
  simp at h

/-- One more token is clean if there is no objection to it. -/
theorem Clean.concat (h : Clean ts) (ht : ∀ e, ¬ Objection ts t e) : Clean (ts ++ [t]) := by
  intro before u after hsplit
  rcases eq_or_exists_of_append_singleton hsplit with ⟨rfl, rfl, -⟩ | ⟨after, -, hsplit⟩
  · exact ht
  · exact h before u after hsplit

/-- There is one objection to a token at most. -/
theorem Objection.unique (h : Objection before t e) (h' : Objection before t e') : e = e' := by
  cases h with
  | @duplicateLabel name first ht hfirst =>
    cases h' with
    | duplicateLabel ht' hfirst' =>
      obtain rfl := ht.name_unique ht'
      obtain rfl := Option.some.inj (hfirst.symm.trans hfirst')
      rfl
    | misplacedLabel ht' hnew' _ =>
      obtain rfl := ht.name_unique ht'
      cases hfirst.symm.trans hnew'
    | programTooLarge hcode _ => cases ht.isCode_eq_false.symm.trans hcode
  | misplacedLabel ht hnew _ =>
    cases h' with
    | duplicateLabel ht' hfirst' =>
      obtain rfl := ht.name_unique ht'
      cases hnew.symm.trans hfirst'
    | misplacedLabel ht' _ _ => rw [ht.name_unique ht']
    | programTooLarge hcode _ => cases ht.isCode_eq_false.symm.trans hcode
  | programTooLarge hcode _ =>
    cases h' with
    | duplicateLabel ht' _ | misplacedLabel ht' _ _ => cases ht'.isCode_eq_false.symm.trans hcode
    | programTooLarge _ _ => rfl

/-- **Tokens have one first objection at most.** -/
theorem first_objection_unique (hsplit : before ++ t :: after = before' ++ t' :: after')
    (hclean : Clean before) (h : Objection before t e) (hclean' : Clean before')
    (h' : Objection before' t' e') : t = t' ∧ e = e' := by
  -- a first objection further on would have the other one in front of it
  rcases List.append_eq_append_iff.1 hsplit with ⟨more, rfl, hmore⟩ | ⟨more, rfl, hmore⟩
  · rcases more with _ | ⟨u, more⟩
    · rw [List.append_nil] at h'
      cases hmore
      exact ⟨rfl, h.unique h'⟩
    · cases hmore
      exact absurd h (hclean' before t more rfl e)
  · rcases more with _ | ⟨u, more⟩
    · rw [List.append_nil] at h
      cases hmore
      exact ⟨rfl, h.unique h'⟩
    · cases hmore
      exact absurd h' (hclean before' t' more rfl e')

end Token

open Token (isDefinition LineStart Objection Clean)

/-! ### Tallies in step with tokens -/

/-- The tally of clean tokens: it lists them, counts those of code, and has an entry for each
definition. -/
structure Tally.Tracks (t : Tally) (ts : List Token) : Prop where
  clean : Clean ts
  tokens_eq : t.tokens = ts.reverse
  byteCount_eq : t.byteCount = ts.countP isCode
  byteCount_le : t.byteCount ≤ memorySize
  find?_pos : ∀ name, (t.labels.find? name).map Label.pos =
    (ts.find? fun u => u.Defines name).map Spelled.pos
  names_nodup : (t.labels.map Label.name).Nodup
  addresses_le : ∀ l ∈ t.labels, l.address ≤ t.byteCount
  addresses_sorted : t.labels.Pairwise fun l l' => l'.address ≤ l.address
  length_labels : t.labels.length = ts.countP isDefinition
  label : ∀ before u after name, ts = before ++ u :: after → u.Defines name →
    t.labels.reverse[before.countP isDefinition]? = some ⟨name, before.countP isCode, u.pos⟩

theorem Token.countP_isCode_singleton (u : Token) : [u].countP isCode = u.value.size := by
  obtain ⟨value, lexeme, pos⟩ := u
  cases value <;> rfl

namespace Tally

variable {w : Nat} {t t' : Tally} {ts : List Token} {u : Token} {p : Piece} {ps : List Piece}
  {name : String} {text rest : List Char}

theorem tracks_empty : Tracks {} [] where
  clean := Token.clean_nil
  tokens_eq := rfl
  byteCount_eq := rfl
  byteCount_le := Nat.zero_le _
  find?_pos _ := rfl
  names_nodup := .nil
  addresses_le := by simp
  addresses_sorted := .nil
  length_labels := rfl
  label before u after name h := by simp at h

/-- What is spelled as the definition of a label defines it. -/
theorem defines_of_spelling (hs : Item.Spelling (.definition name) text rest) (pos : Position) :
    Token.Defines ⟨.labelDefinition, String.ofList text, pos⟩ name := by
  cases hs
  exact ⟨rfl, by simp⟩

namespace Tracks

variable (h : t.Tracks ts)

include h

/-- A statement can start at the tally where a definition may stand behind the tokens. -/
theorem atBoundary_iff : t.atBoundary ↔ LineStart ts := by
  have hfind : ts.reverse.find? (fun u => !u.isDefinition) =
      t.tokens.find? fun u => u.value != .labelDefinition := by
    rw [h.tokens_eq]
    rfl
  rw [atBoundary, LineStart, hfind]
  cases t.tokens.find? fun u => u.value != .labelDefinition with
  | none => simp
  | some u =>
    obtain ⟨value, lexeme, pos⟩ := u
    cases value <;> simp [Word.isDelimiter]

/-- The tally has an entry for a name if one of the tokens defines it. -/
theorem find?_eq_none_iff :
    t.labels.find? name = none ↔ ts.find? (fun u => u.Defines name) = none := by
  rw [← Option.map_eq_none_iff (f := Label.pos), h.find?_pos, Option.map_eq_none_iff]

/-- One more word that is no definition and fits. -/
theorem push (hu : u.isDefinition = false) (hle : t.byteCount + u.value.size ≤ memorySize)
    (pos : Position) :
    Tracks ⟨u :: t.tokens, t.labels, t.byteCount + u.value.size, pos⟩ (ts ++ [u]) where
  clean := by
    refine h.clean.concat fun e he => ?_
    cases he with
    | duplicateLabel ht _ | misplacedLabel ht _ _ => cases hu.symm.trans ht.1
    | programTooLarge ht hfull =>
      -- it is a word of code, so it has a byte and there was room for it
      have hsize := Token.countP_isCode_singleton u
      rw [List.countP_cons_of_pos ht] at hsize
      rw [h.byteCount_eq, hfull, ← hsize] at hle
      exact absurd hle (by simp)
  tokens_eq := by rw [List.reverse_append, h.tokens_eq]; rfl
  byteCount_eq := by
    rw [List.countP_append, Token.countP_isCode_singleton]
    exact congrArg (· + _) h.byteCount_eq
  byteCount_le := hle
  find?_pos name := by
    have hnone : [u].find? (fun v => v.Defines name) = none := by
      simp [Token.Defines, hu]
    rw [List.find?_append, hnone, Option.or_none]
    exact h.find?_pos name
  names_nodup := h.names_nodup
  addresses_le l hl := (h.addresses_le l hl).trans (by simp)
  addresses_sorted := h.addresses_sorted
  length_labels := by
    rw [List.countP_append, ← h.length_labels]
    simp [hu]
  label before v after name hsplit hv := by
    rcases eq_or_exists_of_append_singleton hsplit with ⟨-, rfl, -⟩ | ⟨after, -, hsplit⟩
    · cases hu.symm.trans hv.1
    · exact h.label before v after name hsplit hv

/-- One more definition, of a new label and where it may stand. -/
theorem define (hu : u.Defines name) (hnew : t.labels.find? name = none) (hplace : t.atBoundary)
    (pos : Position) :
    Tracks ⟨u :: t.tokens, ⟨name, t.byteCount, u.pos⟩ :: t.labels, t.byteCount, pos⟩ (ts ++ [u]) where
  clean := by
    refine h.clean.concat fun e he => ?_
    cases he with
    | duplicateLabel ht hfirst =>
      obtain rfl := hu.name_unique ht
      cases (h.find?_eq_none_iff.1 hnew).symm.trans hfirst
    | misplacedLabel _ _ hmisplaced => exact hmisplaced (h.atBoundary_iff.1 hplace)
    | programTooLarge ht _ => cases hu.isCode_eq_false.symm.trans ht
  tokens_eq := by rw [List.reverse_append, h.tokens_eq]; rfl
  byteCount_eq := by
    rw [List.countP_append, List.countP_cons_of_neg (by simp [hu.isCode_eq_false])]
    exact h.byteCount_eq
  byteCount_le := h.byteCount_le
  find?_pos name' := by
    rw [List.find?_append, LabelTable.find?, List.find?_cons]
    by_cases hname : name = name'
    · -- the new entry is the only one of its name, so the newest is the first
      subst hname
      rw [h.find?_eq_none_iff.1 hnew, List.find?_cons_of_pos (by simpa using hu)]
      simp
    · have hnone : [u].find? (fun v => v.Defines name') = none := by
        rw [List.find?_cons_of_neg (by simpa using fun hu' => hname (hu.name_unique hu'))]
        rfl
      rw [hnone, Option.or_none, beq_eq_false_iff_ne.2 hname]
      exact h.find?_pos name'
  names_nodup := by
    refine List.nodup_cons.2 ⟨fun hmem => ?_, h.names_nodup⟩
    obtain ⟨l, hl, hname⟩ := List.mem_map.1 hmem
    exact List.find?_eq_none.1 hnew l hl (by simpa using hname)
  addresses_le := List.forall_mem_cons.2 ⟨le_refl _, h.addresses_le⟩
  addresses_sorted := .cons h.addresses_le h.addresses_sorted
  length_labels := by
    rw [List.countP_append, List.countP_cons_of_pos hu.1, List.length_cons, h.length_labels]
    rfl
  label before v after name' hsplit hv := by
    rw [List.reverse_cons]
    rcases eq_or_exists_of_append_singleton hsplit with ⟨rfl, rfl, -⟩ | ⟨after, -, hsplit⟩
    · -- its number is that of the definitions in front
      obtain rfl := hu.name_unique hv
      have hlength : t.labels.reverse.length = ts.countP isDefinition := by
        rw [List.length_reverse, h.length_labels]
      rw [← hlength, List.getElem?_concat_length, h.byteCount_eq]
    · have hentry := h.label before v after name' hsplit hv
      obtain ⟨hlt, -⟩ := List.getElem?_eq_some_iff.1 hentry
      rw [List.getElem?_append_left hlt, hentry]

/-- **A piece that the tally takes keeps it in step.** -/
theorem extend (hs : p.item.Spelling p.text rest) (ha : t.Admits p) :
    (t.extend w p).Tracks (ts ++ (p.token? t.pos).toList) := by
  obtain ⟨item, text⟩ := p
  cases item with
  | gap =>
    have hgap : ts ++ (Piece.token? t.pos ⟨.gap, text⟩).toList = ts := List.append_nil ts
    rw [hgap]
    exact { h with }
  | token word =>
    have hword : Token.isDefinition ⟨word, String.ofList text, t.pos⟩ = false := by
      cases hs <;> rfl
    exact h.push hword ha _
  | definition name =>
    exact h.define (defines_of_spelling hs t.pos) ha.1 ha.2 _

/-- **A piece that the tally does not take is a token with an objection to it.** -/
theorem objection (hs : p.item.Spelling p.text rest) (ha : ¬ t.Admits p) :
    ∃ u e, p.token? t.pos = some u ∧ Objection ts u e ∧ t.add w p = .error (.lexical e u.pos) := by
  obtain ⟨item, text⟩ := p
  cases item with
  | gap => exact absurd trivial ha
  | token word =>
    have hsize := Token.countP_isCode_singleton ⟨word, String.ofList text, t.pos⟩
    have hlt : memorySize < t.byteCount + word.size := Nat.lt_of_not_le ha
    have hle := h.byteCount_le
    -- what is in front fits, so a word that does not has a byte, and memory is full
    by_cases hcode : isCode ⟨word, String.ofList text, t.pos⟩
    · rw [List.countP_cons_of_pos hcode] at hsize
      have hone : word.size = 1 := hsize.symm
      refine ⟨_, _, rfl, .programTooLarge hcode ?_, ?_⟩
      · rw [← h.byteCount_eq]
        omega
      · simp only [add, addItem, if_pos hlt]
    · rw [List.countP_cons_of_neg hcode] at hsize
      have hzero : word.size = 0 := hsize.symm
      omega
  | definition name =>
    have hdefines := defines_of_spelling hs t.pos
    cases hfind : t.labels.find? name with
    | some first =>
      have hpos := h.find?_pos name
      rw [hfind] at hpos
      obtain ⟨u, hu, hupos⟩ := Option.map_eq_some_iff.1 hpos.symm
      refine ⟨_, _, rfl, .duplicateLabel hdefines hu, ?_⟩
      simp only [add, addItem, hfind, hupos]
    | none =>
      have hplace : ¬ t.atBoundary := fun hplace => ha ⟨hfind, hplace⟩
      refine ⟨_, _, rfl, .misplacedLabel hdefines (h.find?_eq_none_iff.1 hfind) ?_, ?_⟩
      · rwa [← h.atBoundary_iff]
      · simp only [add, addItem, hfind, if_neg hplace]

/-- **The pieces of a text are all taken, or the first objection is the error.** -/
theorem run (hps : Piece.Spells ps text) :
    (∃ t', ps.foldlM (add w) t = .ok t' ∧ t'.Tracks (ts ++ Piece.tokens w t.pos ps)) ∨
      ∃ before u after e, ts ++ Piece.tokens w t.pos ps = before ++ u :: after ∧ Clean before ∧
        Objection before u e ∧ ps.foldlM (add w) t = .error (.lexical e u.pos) := by
  -- with each piece that is taken the tokens so far grow, and the tally stays in step
  induction hps generalizing t ts with
  | nil =>
    refine .inl ⟨t, rfl, ?_⟩
    rwa [Piece.tokens, List.append_nil]
  | @cons p ps rest hp _ ih =>
    rw [List.foldlM_cons, Piece.tokens, ← List.append_assoc]
    by_cases ha : t.Admits p
    · rw [add_eq_ok_iff.2 ⟨ha, rfl⟩]
      exact ih (h.extend hp ha)
    · obtain ⟨u, e, hu, hobjection, he⟩ := h.objection (w := w) hp ha
      rw [he, hu]
      exact .inr ⟨ts, u, _, e, List.append_assoc _ _ _, h.clean, hobjection, rfl⟩

end Tracks

end Tally

/-! ### Token streams -/

variable {w : Nat} {text : List Char} {ps : List Piece} {ts : List Token}

/-- The bytes and the labels of a token stream are those of its tokens: the tokens of code are
counted and fit, and the labels are those that are defined, each once and in order, where statements
can start and for the number of bytes in front. -/
structure TokenStream.Accounts (s : TokenStream) : Prop where
  byteCount_eq : s.byteCount = s.tokens.countP isCode
  byteCount_le : s.byteCount ≤ memorySize
  names_nodup : (s.labels.map Label.name).Nodup
  addresses_sorted : s.labels.Pairwise fun l l' => l.address ≤ l'.address
  length_labels : s.labels.length = s.tokens.countP isDefinition
  label : ∀ before t after, s.tokens = before ++ t :: after → t.isDefinition →
    LineStart before ∧ ∃ name, t.Defines name ∧
      s.labels[before.countP isDefinition]? = some ⟨name, before.countP isCode, t.pos⟩

/-- A clean definition stands where it may. -/
theorem Token.Clean.lineStart (h : Clean ts) {before after : List Token} {t : Token} {name : String}
    (hsplit : ts = before ++ t :: after) (ht : t.Defines name) : LineStart before := by
  by_contra hplace
  cases hfind : before.find? (fun u => u.Defines name) with
  | some first => exact h before t after hsplit _ (.duplicateLabel ht hfind)
  | none => exact h before t after hsplit _ (.misplacedLabel ht hfind hplace)

/-- What tallies in step with the tokens come to at the end of the input. -/
theorem Tally.Tracks.accounts {t : Tally} (h : t.Tracks ts)
    (hdefines : ∀ u ∈ ts, u.isDefinition → ∃ name, u.Defines name) : t.finish.Accounts := by
  have htokens : t.finish.tokens = ts ++ [⟨.endOfInput, "", t.pos⟩] := by
    rw [finish, List.reverse_cons, h.tokens_eq, List.reverse_reverse]
  -- the end of the input is no code and defines no label
  have hcount : ∀ f : Token → Bool, f ⟨.endOfInput, "", t.pos⟩ = false →
      t.finish.tokens.countP f = ts.countP f := by
    intro f hf
    rw [htokens, List.countP_append, List.countP_cons_of_neg (by simp [hf])]
    rfl
  refine ⟨h.byteCount_eq.trans (hcount isCode rfl).symm, h.byteCount_le, ?_, ?_, ?_, ?_⟩
  · rw [finish, List.map_reverse]
    exact List.nodup_reverse.2 h.names_nodup
  · exact List.pairwise_reverse.2 h.addresses_sorted
  · rw [finish, List.length_reverse, h.length_labels]
    exact (hcount isDefinition rfl).symm
  · intro before u after hsplit hu
    rw [htokens] at hsplit
    rcases eq_or_exists_of_append_singleton hsplit with ⟨-, rfl, -⟩ | ⟨after, -, hsplit⟩
    · cases hu
    · obtain ⟨name, hname⟩ := hdefines u (by simp [hsplit]) hu
      exact ⟨h.clean.lineStart hsplit hname, name, hname, h.label before u after name hsplit hname⟩

/-- The definitions among woven tokens define a label each. -/
theorem Token.Woven.exists_defines {front : List Char} (h : Woven w front ts text) :
    ∀ u ∈ ts, u.isDefinition → ∃ name, u.Defines name := by
  intro u hmem hu
  obtain ⟨value, lexeme, pos⟩ := u
  obtain rfl : value = .labelDefinition := eq_of_beq hu
  have hspelled := h.spelling _ hmem
  generalize hchars : lexeme.toList = chars at hspelled
  cases hspelled with
  | @labelDefinition name hn =>
    refine ⟨name, rfl, String.toList_inj.1 ?_⟩
    rw [hchars, String.toList_append]
    rfl

/-- A text that is spelled by pieces is read by adding them up. -/
theorem Piece.Spells.ofText_eq (h : Spells ps text) (w : Nat) :
    TokenStream.ofText w text = (ps.foldlM (Tally.add w) {}).map Tally.finish := by
  simp only [TokenStream.ofText, h.cut]
  cases ps.foldlM (Tally.add w) {} <;> rfl

/-- **A text of words and gaps is read in step with its words, or the first objection to one of them
is the error.** -/
theorem Token.Woven.read (h : Woven w [] ts text) :
    (∃ t : Tally, t.Tracks ts ∧ TokenStream.ofText w text = .ok t.finish) ∨
      ∃ before u after e, ts = before ++ u :: after ∧ Clean before ∧ Objection before u e ∧
        TokenStream.ofText w text = .error (.lexical e u.pos) := by
  obtain ⟨ps, hps, rfl⟩ := h.exists_spells
  rw [hps.ofText_eq]
  rcases Tally.tracks_empty.run (w := w) hps with
    ⟨t, ht, htracks⟩ | ⟨before, u, after, e, hsplit, hclean, hobjection, he⟩
  · rw [ht]
    exact .inl ⟨t, htracks, rfl⟩
  · rw [he]
    exact .inr ⟨before, u, after, e, hsplit, hclean, hobjection, rfl⟩

/-- **Bytes and labels of a text.**  If the text is read, the bytes are those of its mnemonics and
operands, 256 at most, and the labels are those that it defines, in order (`TokenStream.Accounts`).
A text of words and gaps is read exactly if there is no objection to any of its words, and otherwise
the first objection is the error, and is reported at the word; if a label is defined again, advice is
given on the line of its first definition. -/
theorem bytes_and_labels (w : Nat) (text : List Char) :
    (∀ s, TokenStream.ofText w text = .ok s → s.Accounts) ∧
    (∀ ts, Token.Woven w [] ts text →
      ((∃ s, TokenStream.ofText w text = .ok s) ↔ Clean ts) ∧
      ∀ e pos, TokenStream.ofText w text = .error (.lexical e pos) ↔
        ∃ before t after, ts = before ++ t :: after ∧ Clean before ∧ Objection before t e ∧
          pos = t.pos) ∧
    ∀ before t name line, Objection before t (.duplicateLabel name line) →
      ∃ first, before.find? (fun u => u.Defines name) = some first ∧
        (LexError.duplicateLabel name line).hint =
          some s!"definida antes en la línea {first.pos.line}" := by
  refine ⟨fun s hs => ?_, fun ts hwoven => ?_, fun before t name line h => ?_⟩
  · obtain ⟨ps, hcut, -, rfl⟩ := TokenStream.ofText_eq_ok_iff.1 hs
    have hspells := Piece.cut_eq_none_iff.1 hcut
    have hwoven : Token.Woven w [] (Piece.tokens w .start ps) text := hspells.woven w []
    rcases hwoven.read with ⟨t, htracks, ht⟩ | ⟨_, _, _, _, -, -, -, he⟩
    · rw [← Except.ok.inj (ht.symm.trans hs)]
      exact htracks.accounts hwoven.exists_defines
    · cases he.symm.trans hs
  · rcases hwoven.read with
      ⟨t, htracks, ht⟩ | ⟨before, u, after, e', hsplit, hclean, hobjection, he⟩
    · refine ⟨iff_of_true ⟨_, ht⟩ htracks.clean, fun e pos => iff_of_false ?_ ?_⟩
      · intro he
        cases ht.symm.trans he
      · rintro ⟨before, u, after, hsplit, -, hobjection, -⟩
        exact htracks.clean before u after hsplit e hobjection
    · refine ⟨iff_of_false ?_ fun h => h before u after hsplit e' hobjection, fun e pos => ?_⟩
      · rintro ⟨s, hs⟩
        cases he.symm.trans hs
      · rw [he]
        constructor
        · rintro ⟨⟩
          exact ⟨before, u, after, hsplit, hclean, hobjection, rfl⟩
        · rintro ⟨before', u', after', hsplit', hclean', hobjection', rfl⟩
          obtain ⟨rfl, rfl⟩ := Token.first_objection_unique (hsplit.symm.trans hsplit') hclean
            hobjection hclean' hobjection'
          rfl
  · cases h with
    | @duplicateLabel name first ht hfirst => exact ⟨first, hfirst, rfl⟩

/-- Two definitions at one byte behind another, 256 bytes, and a definition that comes again. -/
theorem bytes_and_labels_of_texts :
    (∃ s, TokenStream.ofText 4 "x:/*\n*/NOP;y:z:".toList = .ok s ∧ s.Accounts ∧
      s.labels.map Label.address = [0, 1, 1]) ∧
    (∃ s, TokenStream.ofText 4 (List.replicate 256 ['0', ' ']).flatten = .ok s ∧ s.Accounts ∧
      s.byteCount = memorySize) ∧
    let words : List Token := [⟨.labelDefinition, "x:", ⟨1, 1⟩⟩, ⟨.newline, "\n", ⟨1, 3⟩⟩,
      ⟨.labelDefinition, "x:", ⟨2, 1⟩⟩]
    Token.Woven 4 [] words "x:\nx:".toList ∧ ¬ Clean words ∧
      ∃ before t after, words = before ++ t :: after ∧ Clean before ∧
        Objection before t (.duplicateLabel "x" (some 1)) ∧ t.pos = ⟨2, 1⟩ := by
  have haccounts : ∀ (text : List Char) (p : TokenStream → Bool),
      (TokenStream.ofText 4 text).toOption.any p →
      ∃ s, TokenStream.ofText 4 text = .ok s ∧ s.Accounts ∧ p s := by
    intro text p h
    obtain ⟨s, hs, hp⟩ := exists_ok_of_any h
    exact ⟨s, hs, (bytes_and_labels 4 text).1 s hs, hp⟩
  refine ⟨?_, ?_, ?_⟩
  · obtain ⟨s, hs, h, hp⟩ := haccounts "x:/*\n*/NOP;y:z:".toList
      (fun s => decide (s.labels.map Label.address = [0, 1, 1])) (by decide +kernel)
    exact ⟨s, hs, h, of_decide_eq_true hp⟩
  · obtain ⟨s, hs, h, hp⟩ := haccounts (List.replicate 256 ['0', ' ']).flatten
      (fun s => decide (s.byteCount = memorySize)) (by decide +kernel)
    exact ⟨s, hs, h, of_decide_eq_true hp⟩
  · intro words
    have hcut : Piece.cut "x:\nx:".toList = ([⟨.definition "x", ['x', ':']⟩,
        ⟨.token .newline, ['\n']⟩, ⟨.definition "x", ['x', ':']⟩], none) := by decide +kernel
    have hwoven : Token.Woven 4 [] words "x:\nx:".toList :=
      (Piece.cut_eq_none_iff.1 hcut).woven 4 []
    have herror : TokenStream.ofText 4 "x:\nx:".toList =
        .error (.lexical (.duplicateLabel "x" (some 1)) ⟨2, 1⟩) := by
      rw [(Piece.cut_eq_none_iff.1 hcut).ofText_eq]
      decide +kernel
    obtain ⟨hread, hobjection⟩ := (bytes_and_labels 4 "x:\nx:".toList).2.1 words hwoven
    obtain ⟨before, t, after, hsplit, hclean, h, hpos⟩ := (hobjection _ _).1 herror
    refine ⟨hwoven, fun hall => ?_, before, t, after, hsplit, hclean, h, hpos.symm⟩
    obtain ⟨s, hs⟩ := hread.2 hall
    cases herror.symm.trans hs

end Asm256
