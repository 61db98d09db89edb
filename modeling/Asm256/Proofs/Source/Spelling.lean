/-
How items are spelled.

`Item.Spelling i text rest` says that the characters `text`, with `rest` behind
them, are the item `i`: what characters an item is made of, and what must not
follow them.  An item takes as many characters as it can: no digit follows a
number, no character of names follows a word, a line comment runs up to a line
feed or the end, and a block comment ends at its first end mark.

* `Item.read_eq_ok_iff` — the item at the front of a text is the one that is spelled there;
* `Piece.cut_eq_none_iff` — the pieces of a text are the items that spell it, one after the other.
-/
import Asm256.Proofs.Text.CharacterClasses
import Asm256.Source.TokenStream

namespace Asm256

/-- The text does not go on with a character of the class. -/
def Text.Stops (p : Char → Bool) (rest : List Char) : Prop := ∀ c ∈ rest.head?, p c = false

namespace Item

/-- The digits denote a byte, and they are not too many to convert. -/
structure Numeral (digits : List Char) (n : Nat) : Prop where
  ne_nil : digits ≠ []
  isDigit : ∀ c ∈ digits, Decimal.isDigit c
  length_le : digits.length ≤ Decimal.maxDigits
  value_eq : Decimal.value digits = n
  lt : n < 256

/-- Labels are named by characters of names, but neither by a mnemonic nor by the register mark. -/
structure LabelName (name : String) : Prop where
  ne_nil : name.toList ≠ []
  isNameChar : ∀ c ∈ name.toList, isNameChar c
  ne_mnemonic : ∀ m : Mnemonic, m.name ≠ name
  ne_register : name ≠ "R"

/-- The characters behind `/*` up to the first end mark. -/
def CommentBody (body : List Char) : Prop :=
  ['*', '/'] <:+ body ∧ ¬ ['*', '/'] <:+: body.dropLast

/-- The characters of an item, in front of the rest of a text. -/
inductive Spelling : Item → List Char → List Char → Prop
  | newline {rest : List Char} : Spelling (.token .newline) ['\n'] rest
  | semicolon {rest : List Char} : Spelling (.token .semicolon) [';'] rest
  | comma {rest : List Char} : Spelling (.token .comma) [','] rest
  | blank {c : Char} {rest : List Char} (hc : Text.isBlank c) (hn : c ≠ '\n') :
      Spelling .gap [c] rest
  | lineComment {body rest : List Char} (hb : '\n' ∉ body)
      (hr : Text.Stops (· != '\n') rest) : Spelling .gap ('/' :: '/' :: body) rest
  | blockComment {body rest : List Char} (hb : CommentBody body) :
      Spelling .gap ('/' :: '*' :: body) rest
  | memory {n : Nat} {digits rest : List Char} (hn : Numeral digits n)
      (hr : Text.Stops Decimal.isDigit rest) :
      Spelling (.token (.operand (.memory n))) digits rest
  | literal {n : Nat} {digits rest : List Char} (hn : Numeral digits n)
      (hr : Text.Stops Decimal.isDigit rest) :
      Spelling (.token (.operand (.literal n))) ('#' :: digits) rest
  | register {n : Nat} {digits rest : List Char} (hn : Numeral digits n) (hlt : n < registerCount)
      (hr : Text.Stops Decimal.isDigit rest) :
      Spelling (.token (.operand (.register n))) ('R' :: digits) rest
  | mnemonic {m : Mnemonic} {rest : List Char} (hr : Text.Stops isNameChar rest) :
      Spelling (.token (.mnemonic m)) m.name.toList rest
  | label {name : String} {rest : List Char} (hn : LabelName name)
      (hr : Text.Stops isNameChar rest) (hc : rest.head? ≠ some ':') :
      Spelling (.token (.operand (.label name))) name.toList rest
  | definition {name : String} {rest : List Char} (hn : LabelName name) :
      Spelling (.definition name) (name.toList ++ [':']) rest

/-- A text that no word in front of it runs into: it does not start with a digit, a character of
names or a colon. -/
structure Loose (rest : List Char) : Prop where
  isDigit : Text.Stops Decimal.isDigit rest
  isNameChar : Text.Stops isNameChar rest
  ne_colon : rest.head? ≠ some ':'

/-- What is spelled alone is spelled in front of a text that it does not run into. -/
theorem Spelling.of_loose {i : Item} {text rest : List Char} (h : Spelling i text [])
    (hi : i ≠ .gap) (hr : Loose rest) : Spelling i text rest := by
  cases h with
  | newline => exact .newline
  | semicolon => exact .semicolon
  | comma => exact .comma
  | blank hc hn => exact absurd rfl hi
  | lineComment hb _ => exact absurd rfl hi
  | blockComment hb => exact absurd rfl hi
  | memory hn _ => exact .memory hn hr.isDigit
  | literal hn _ => exact .literal hn hr.isDigit
  | register hn hlt _ => exact .register hn hlt hr.isDigit
  | mnemonic _ => exact .mnemonic hr.isNameChar
  | label hn _ _ => exact .label hn hr.isNameChar hr.ne_colon
  | definition hn => exact .definition hn

/-! ### Runs of a class -/

section Runs

variable {p : Char → Bool} {run rest cs : List Char}

theorem takeWhile_append_of_stops (h : ∀ c ∈ run, p c) (hr : Text.Stops p rest) :
    (run ++ rest).takeWhile p = run := by
  rw [List.takeWhile_append_of_pos h]
  cases rest with
  | nil => simp
  | cons c rest => simp [hr c rfl]

theorem dropWhile_append_of_stops (h : ∀ c ∈ run, p c) (hr : Text.Stops p rest) :
    (run ++ rest).dropWhile p = rest := by
  rw [List.dropWhile_append_of_pos h]
  cases rest with
  | nil => rfl
  | cons c rest => simp [hr c rfl]

theorem stops_dropWhile (p : Char → Bool) (cs : List Char) : Text.Stops p (cs.dropWhile p) := by
  intro c hc
  have h := List.head?_dropWhile_not p cs
  rw [Option.mem_def.1 hc] at h
  exact h

theorem of_mem_takeWhile {c : Char} (h : c ∈ cs.takeWhile p) : p c :=
  List.all_eq_true.1 List.all_takeWhile c h

end Runs

/-! ### Block comments -/

theorem commentBody_end : CommentBody ['*', '/'] := by
  refine ⟨List.suffix_refl _, fun h => ?_⟩
  have := h.length_le
  simp at this

/-- A character that opens no end mark may stand in front. -/
theorem commentBody_cons {c : Char} {body : List Char} (hb : body ≠ [])
    (h : ¬ ['*', '/'] <+: c :: body) : CommentBody (c :: body) ↔ CommentBody body := by
  have hp : ¬ ['*', '/'] <+: c :: body.dropLast := by
    intro hp
    exact h (hp.trans (List.cons_prefix_cons.2 ⟨rfl, List.dropLast_prefix body⟩))
  have hne : ['*', '/'] ≠ c :: body := by
    rintro heq
    exact h (heq ▸ List.prefix_refl _)
  unfold CommentBody
  rw [List.dropLast_cons_of_ne_nil hb, List.infix_cons_iff, List.suffix_cons_iff]
  constructor
  · rintro ⟨hs, hi⟩
    exact ⟨hs.resolve_left hne, fun hi' => hi (.inr hi')⟩
  · rintro ⟨hs, hi⟩
    exact ⟨.inr hs, fun hi' => hi (hi'.resolve_left hp)⟩

theorem CommentBody.ne_nil {body : List Char} (h : CommentBody body) : body ≠ [] := by
  rintro rfl
  simp [CommentBody] at h

/-- A body that starts with the end mark is nothing else. -/
theorem CommentBody.eq_of_mark {body : List Char} (h : CommentBody ('*' :: '/' :: body)) :
    body = [] := by
  by_contra hne
  refine h.2 ?_
  rw [List.dropLast_cons_of_ne_nil (by simp), List.dropLast_cons_of_ne_nil hne]
  exact ⟨[], body.dropLast, by simp⟩

theorem blockComment?_eq_some_iff {cs text rest : List Char} :
    blockComment? cs = some (text, rest) ↔ cs = text ++ rest ∧ CommentBody text := by
  fun_induction blockComment? cs generalizing text with
  | case1 rest' =>
    constructor
    · intro h
      cases h
      exact ⟨rfl, commentBody_end⟩
    · rintro ⟨heq, hb⟩
      -- the body starts with the end mark, since it has at least two characters
      obtain ⟨front, rfl⟩ := hb.1
      rcases front with _ | ⟨c, _ | ⟨d, front⟩⟩
      · simp at heq
        simp [heq]
      · simp at heq
      · simp only [List.cons_append, List.cons.injEq] at heq
        obtain ⟨rfl, rfl, -⟩ := heq
        have := hb.eq_of_mark
        simp at this
  | case2 c cs hc ih =>
    have hmark : ¬ ['*', '/'] <+: c :: cs := by
      rintro ⟨rest', heq⟩
      cases heq
      exact hc rest' rfl rfl
    rw [Option.map_eq_some_iff]
    constructor
    · rintro ⟨⟨t, r⟩, ht, he⟩
      cases he
      obtain ⟨rfl, hb⟩ := ih.1 ht
      refine ⟨rfl, (commentBody_cons hb.ne_nil ?_).2 hb⟩
      intro hp
      exact hmark (hp.trans (List.prefix_append (c :: t) rest))
    · rintro ⟨heq, hb⟩
      rcases text with _ | ⟨d, t⟩
      · exact absurd rfl hb.ne_nil
      · rw [List.cons_append, List.cons.injEq] at heq
        obtain ⟨rfl, rfl⟩ := heq
        have ht : t ≠ [] := by
          rintro rfl
          have := hb.1.length_le
          simp at this
        have hb' := (commentBody_cons ht fun hp =>
          hmark (hp.trans (List.prefix_append (c :: t) rest))).1 hb
        exact ⟨(t, rest), ih.2 ⟨rfl, hb'⟩, rfl⟩
  | case3 =>
    constructor
    · intro h
      cases h
    · rintro ⟨heq, hb⟩
      exact absurd (List.append_eq_nil_iff.1 heq.symm).1 hb.ne_nil

/-! ### What is read is spelled -/

theorem readNumber_eq_ok_iff {skipped digits : List Char} {n : Nat} :
    readNumber skipped digits = .ok n ↔
      digits.length ≤ Decimal.maxDigits ∧ Decimal.value digits = n ∧ n < 256 := by
  unfold readNumber Decimal.read
  by_cases hl : Decimal.maxDigits < digits.length
  · simp [hl, Nat.not_le_of_lt hl]
  · by_cases hv : Decimal.value digits < 256
    · simp only [hl, hv, if_true, if_false, Except.ok.injEq]
      constructor
      · rintro rfl
        exact ⟨Nat.le_of_not_lt hl, rfl, hv⟩
      · rintro ⟨-, rfl, -⟩
        rfl
    · simp only [hl, hv, if_false, reduceCtorEq, false_iff]
      rintro ⟨-, rfl, hlt⟩
      exact hv hlt

/-- A run of digits that converts to a byte is a numeral. -/
theorem numeral_takeWhile {skipped cs : List Char} {n : Nat}
    (hne : cs.takeWhile Decimal.isDigit ≠ [])
    (h : readNumber skipped (cs.takeWhile Decimal.isDigit) = .ok n) :
    Numeral (cs.takeWhile Decimal.isDigit) n := by
  obtain ⟨hl, hv, hlt⟩ := readNumber_eq_ok_iff.1 h
  exact ⟨hne, fun c hc => of_mem_takeWhile hc, hl, hv, hlt⟩

variable {c : Char} {cs name rest : List Char} {r : Reading}

theorem spelling_of_readComment (h : readComment cs = .ok r) :
    Spelling r.item r.text r.rest := by
  unfold readComment at h
  split at h
  · next cs =>
    cases h
    refine .lineComment ?_ (stops_dropWhile _ _)
    intro hmem
    simpa using of_mem_takeWhile hmem
  · split at h
    · next heq =>
      cases h
      exact .blockComment (blockComment?_eq_some_iff.1 heq).2
    · cases h
  · cases h

theorem spelling_of_readMemory (hc : Decimal.isDigit c) (h : readMemory (c :: cs) = .ok r) :
    Spelling r.item r.text r.rest := by
  simp only [readMemory] at h
  split at h
  · cases h
  · next n hn =>
    cases h
    exact .memory (numeral_takeWhile (by simp [hc]) hn) (stops_dropWhile _ _)

theorem spelling_of_readLiteral (h : readLiteral cs = .ok r) :
    Spelling r.item r.text r.rest := by
  simp only [readLiteral] at h
  split at h
  · cases h
  · next hne =>
    split at h
    · cases h
    · next n hn =>
      cases h
      exact .literal (numeral_takeWhile (by simpa using hne) hn) (stops_dropWhile _ _)

theorem spelling_of_readRegister (h : readRegister cs = .ok r) :
    Spelling r.item r.text r.rest := by
  simp only [readRegister] at h
  split at h
  · cases h
  · next hne =>
    split at h
    · cases h
    · next n hn =>
      split at h
      · next hlt =>
        cases h
        exact .register (numeral_takeWhile (by simpa using hne) hn) hlt (stops_dropWhile _ _)
      · cases h

theorem ofName?_eq_none_iff {s : String} :
    Mnemonic.ofName? s = none ↔ ∀ m : Mnemonic, m.name ≠ s := by
  simp only [Mnemonic.ofName?, List.find?_eq_none, beq_iff_eq]
  exact ⟨fun h m => h m (Mnemonic.mem_all m), fun h m _ => h m⟩

theorem name_of_ofName? {s : String} {m : Mnemonic} (h : Mnemonic.ofName? s = some m) :
    m.name = s := by
  simpa [Mnemonic.ofName?] using List.find?_some h

theorem spelling_of_readName (hne : name ≠ []) (hn : ∀ c ∈ name, isNameChar c) (hr : name ≠ ['R'])
    (hs : Text.Stops isNameChar rest) (h : readName name rest = .ok r) :
    Spelling r.item r.text r.rest := by
  simp only [readName] at h
  split at h
  · next m hm =>
    cases h
    have heq : name = m.name.toList := by rw [name_of_ofName? hm, String.toList_ofList]
    rw [heq]
    exact .mnemonic hs
  · next hm =>
    have hl : LabelName (String.ofList name) :=
      ⟨by simpa using hne, by simpa using hn, ofName?_eq_none_iff.1 hm, fun heq => hr <| by
        rw [← String.toList_ofList (l := name), heq]; rfl⟩
    split at h
    · cases h
      simpa using @Spelling.definition _ _ hl
    · next hcolon =>
      cases h
      have hc : rest.head? ≠ some ':' := by
        intro hc
        obtain ⟨tail, rfl⟩ := List.head?_eq_some_iff.1 hc
        exact hcolon tail rfl
      simpa using Spelling.label hl hs hc

theorem spelling_of_readWord (hc : isNameChar c) (h : readWord (c :: cs) = .ok r) :
    Spelling r.item r.text r.rest := by
  simp only [readWord] at h
  split at h
  · exact spelling_of_readRegister h
  · next hr =>
    exact spelling_of_readName (by simp [hc]) (fun c hc => of_mem_takeWhile hc) hr
      (stops_dropWhile _ _) h

/-- What is read is spelled as the item that it is read as. -/
theorem spelling_of_read (h : read c cs = .ok r) : Spelling r.item r.text r.rest := by
  simp only [read] at h
  split at h
  · next hc =>
    cases h
    rw [hc]
    exact .newline
  next hn =>
  split at h
  · next hb =>
    cases h
    exact .blank hb hn
  split at h
  · next hc =>
    cases h
    rw [hc]
    exact .semicolon
  split at h
  · next hc =>
    cases h
    rw [hc]
    exact .comma
  split at h
  · exact spelling_of_readComment h
  split at h
  · next hd => exact spelling_of_readMemory hd h
  split at h
  · exact spelling_of_readLiteral h
  split at h
  · next hc => exact spelling_of_readWord hc h
  · cases h

/-! ### What is spelled is read -/

/-- The reader of names is reached by every character of names. -/
theorem read_of_isNameChar (hc : isNameChar c) : read c cs = readWord (c :: cs) := by
  have h := isNameChar_iff.1 hc
  have hne : ∀ d : Char, d.toNat < 0x41 → c ≠ d := fun d hd => Char.ne_of_toNat (by omega)
  rw [read, if_neg (hne '\n' (by decide)), Text.isBlank_eq_false (by omega) (by omega),
    if_neg (by simp), if_neg (hne ';' (by decide)), if_neg (hne ',' (by decide)),
    if_neg (hne '/' (by decide)), Decimal.isDigit_eq_false (by omega), if_neg (by simp),
    if_neg (hne '#' (by decide)), if_pos hc]

/-- The reader of references to memory is reached by every digit. -/
theorem read_of_isDigit (hc : Decimal.isDigit c) : read c cs = readMemory (c :: cs) := by
  have h := Decimal.isDigit_iff.1 hc
  rw [read, if_neg (Char.ne_of_toNat (by simp; omega)),
    Text.isBlank_eq_false (by omega) (by omega), if_neg (by simp),
    if_neg (Char.ne_of_toNat (by simp; omega)), if_neg (Char.ne_of_toNat (by simp; omega)),
    if_neg (Char.ne_of_toNat (by simp; omega)), if_pos hc]

/-- A run of digits is read as its number. -/
theorem Numeral.read {digits skipped : List Char} {n : Nat} (h : Numeral digits n) :
    readNumber skipped digits = .ok n :=
  readNumber_eq_ok_iff.2 ⟨h.length_le, h.value_eq, h.lt⟩

theorem stops_cons {p : Char → Bool} (h : p c = false) : Text.Stops p (c :: rest) := by
  intro d hd
  cases hd
  exact h

/-- The register mark in front of digits stands alone. -/
theorem read_registerMark {digits : List Char} (hne : digits ≠ [])
    (hdigits : ∀ d ∈ digits, Decimal.isDigit d) :
    Item.read 'R' (digits ++ rest) = readRegister (digits ++ rest) := by
  -- the first digit ends the name
  have hstop : Text.Stops isNameChar (digits ++ rest) := by
    obtain ⟨d, ds, rfl⟩ := List.exists_cons_of_ne_nil hne
    have hd := Decimal.isDigit_iff.1 (hdigits d (by simp))
    refine stops_cons (Bool.eq_false_iff.2 fun hc => ?_)
    have := isNameChar_iff.1 hc
    omega
  have hR : ∀ d ∈ ['R'], isNameChar d := List.forall_mem_singleton.2 (by decide)
  rw [read_of_isNameChar (by decide), ← List.singleton_append, readWord,
    takeWhile_append_of_stops hR hstop, dropWhile_append_of_stops hR hstop]
  rfl

/-- The register mark with a numeral is read as a register, if there is such a register. -/
theorem Numeral.read_register {digits : List Char} {n : Nat} (h : Numeral digits n)
    (hr : Text.Stops Decimal.isDigit rest) : Item.read 'R' (digits ++ rest) =
      if n < registerCount then .ok ⟨.token (.operand (.register n)), 'R' :: digits, rest⟩
      else .error (.error (.registerOutOfRange n registerCount) []) := by
  rw [read_registerMark h.ne_nil h.isDigit]
  simp only [readRegister, takeWhile_append_of_stops h.isDigit hr,
    dropWhile_append_of_stops h.isDigit hr, h.read, List.isEmpty_iff, h.ne_nil, if_false]

/-- A word that is no mnemonic and not the register mark is read as a name. -/
theorem LabelName.readWord {s : String} (h : LabelName s) (hr : Text.Stops Item.isNameChar rest) :
    Item.readWord (s.toList ++ rest) = readName s.toList rest := by
  have hne : s.toList ≠ ['R'] := by
    intro heq
    exact h.ne_register (String.toList_inj.1 heq)
  rw [Item.readWord, takeWhile_append_of_stops h.isNameChar hr,
    dropWhile_append_of_stops h.isNameChar hr]
  exact if_neg hne

theorem mnemonic_isNameChar (m : Mnemonic) : ∀ c ∈ m.name.toList, isNameChar c := by
  have hall : m.name.toList.all isNameChar = true := by
    cases m <;> decide
  exact List.all_eq_true.1 hall

theorem mnemonic_ne_nil (m : Mnemonic) : m.name.toList ≠ [] := by
  cases m <;> decide

theorem mnemonic_ne_register (m : Mnemonic) : m.name.toList ≠ ['R'] := by
  cases m <;> decide

/-- What is spelled as an item is read as that item. -/
theorem Spelling.read_eq {i : Item} {text : List Char} (h : Spelling i text rest)
    (heq : text ++ rest = c :: cs) : read c cs = .ok ⟨i, text, rest⟩ := by
  cases h with
  | newline =>
    cases heq
    rfl
  | semicolon =>
    cases heq
    rfl
  | comma =>
    cases heq
    rfl
  | blank hc hn =>
    cases heq
    rw [Item.read, if_neg hn, if_pos hc]
    rfl
  | @lineComment body _ hb hr =>
    cases heq
    have hrun : ∀ d ∈ body, (d != '\n') = true := by
      intro d hd
      rw [bne_iff_ne]
      rintro rfl
      exact hb hd
    show readComment ('/' :: (body ++ rest)) = _
    rw [readComment, takeWhile_append_of_stops hrun hr, dropWhile_append_of_stops hrun hr]
  | @blockComment body _ hb =>
    cases heq
    show readComment ('*' :: (body ++ rest)) = _
    rw [readComment, blockComment?_eq_some_iff.2 ⟨rfl, hb⟩]
  | @memory n digits _ hn hr =>
    obtain ⟨d, ds, rfl⟩ := List.exists_cons_of_ne_nil hn.ne_nil
    obtain ⟨rfl, hcs⟩ := List.cons.inj heq
    rw [read_of_isDigit (hn.isDigit d (by simp)), ← heq]
    simp only [readMemory, takeWhile_append_of_stops hn.isDigit hr,
      dropWhile_append_of_stops hn.isDigit hr, hn.read]
  | @literal n digits _ hn hr =>
    cases heq
    show readLiteral (digits ++ rest) = _
    simp only [readLiteral, takeWhile_append_of_stops hn.isDigit hr,
      dropWhile_append_of_stops hn.isDigit hr, hn.read, List.isEmpty_iff, hn.ne_nil, if_false]
  | @register n digits _ hn hlt hr =>
    simp only [List.cons_append, List.cons.injEq] at heq
    obtain ⟨rfl, rfl⟩ := heq
    rw [hn.read_register hr, if_pos hlt]
  | @mnemonic m _ hr =>
    obtain ⟨d, ds, hm⟩ := List.exists_cons_of_ne_nil (mnemonic_ne_nil m)
    rw [hm] at heq
    obtain ⟨rfl, hcs⟩ := List.cons.inj heq
    rw [read_of_isNameChar (mnemonic_isNameChar m d (by simp [hm])), ← heq, ← hm, readWord,
      takeWhile_append_of_stops (mnemonic_isNameChar m) hr,
      dropWhile_append_of_stops (mnemonic_isNameChar m) hr, if_neg (mnemonic_ne_register m)]
    simp only [readName, String.ofList_toList, Mnemonic.ofName?_name]
  | @label name _ hn hr hc =>
    obtain ⟨d, ds, hm⟩ := List.exists_cons_of_ne_nil hn.ne_nil
    rw [hm] at heq
    obtain ⟨rfl, hcs⟩ := List.cons.inj heq
    rw [read_of_isNameChar (hn.isNameChar d (by simp [hm])), ← heq, ← hm, hn.readWord hr]
    simp only [readName, String.ofList_toList, ofName?_eq_none_iff.2 hn.ne_mnemonic]
    split
    · exact absurd rfl hc
    · rfl
  | @definition name _ hn =>
    have hr : Text.Stops isNameChar (':' :: rest) := stops_cons (by decide)
    rw [List.append_assoc, List.singleton_append] at heq
    obtain ⟨d, ds, hm⟩ := List.exists_cons_of_ne_nil hn.ne_nil
    have heq' := heq
    rw [hm] at heq'
    obtain ⟨rfl, hcs⟩ := List.cons.inj heq'
    rw [read_of_isNameChar (hn.isNameChar d (by simp [hm])), ← heq, hn.readWord hr]
    simp only [readName, String.ofList_toList, ofName?_eq_none_iff.2 hn.ne_mnemonic]

/-- **The item at the front of a text is the one that is spelled there.** -/
theorem read_eq_ok_iff {i : Item} {text : List Char} :
    read c cs = .ok ⟨i, text, rest⟩ ↔ text ++ rest = c :: cs ∧ Spelling i text rest := by
  constructor
  · intro h
    exact ⟨text_append_rest h, spelling_of_read h⟩
  · rintro ⟨heq, hs⟩
    exact hs.read_eq heq

theorem Spelling.text_ne_nil {i : Item} {text : List Char} (h : Spelling i text rest) :
    text ≠ [] := by
  cases h with
  | memory hn _ => exact hn.ne_nil
  | mnemonic _ => exact mnemonic_ne_nil _
  | label hn _ _ => exact hn.ne_nil
  | _ => simp

end Item

/-! ### Whole texts -/

namespace Piece

/-- Pieces spell a text when their items are spelled by it, one after the other. -/
inductive Spells : List Piece → List Char → Prop
  | nil : Spells [] []
  | cons {p : Piece} {ps : List Piece} {rest : List Char} (hp : Item.Spelling p.item p.text rest)
      (hps : Spells ps rest) : Spells (p :: ps) (p.text ++ rest)

/-- A piece spells its text alone. -/
theorem Spells.singleton {p : Piece} (hp : Item.Spelling p.item p.text []) : Spells [p] p.text := by
  have hspells := Spells.cons hp .nil
  rwa [List.append_nil] at hspells

theorem spells_of_cut {text : List Char} {ps : List Piece} (h : cut text = (ps, none)) :
    Spells ps text := by
  fun_induction cut text generalizing ps with
  | case1 =>
    cases h
    exact .nil
  | case2 c cs e he => cases h
  | case3 c cs r hr pieces refusal hcut ih =>
    cases h
    rw [← Item.text_append_rest hr]
    exact .cons (Item.spelling_of_read hr) (ih hcut)

/-- An item that is spelled at the front of a text is the first piece of it. -/
theorem cut_of_spelling {i : Item} {text rest : List Char} (h : Item.Spelling i text rest) :
    cut (text ++ rest) = (⟨i, text⟩ :: (cut rest).1, (cut rest).2) := by
  obtain ⟨c, cs, hc⟩ := List.exists_cons_of_ne_nil h.text_ne_nil
  have hread : Item.read c (cs ++ rest) = .ok ⟨i, text, rest⟩ := h.read_eq (by rw [hc]; rfl)
  rw [hc, List.cons_append, cut]
  split
  · next e he =>
    rw [hread] at he
    cases he
  · next r hr =>
    rw [hread] at hr
    cases hr
    rw [← hc]

/-- Where no item can be read, there are no more pieces. -/
theorem cut_of_read_error {c : Char} {cs : List Char} {e : Refusal}
    (h : Item.read c cs = .error e) : cut (c :: cs) = ([], some e) := by
  rw [cut]
  split
  · next e' he =>
    rw [h] at he
    cases he
    rfl
  · next r hr =>
    rw [h] at hr
    cases hr

theorem Spells.cut {text : List Char} {ps : List Piece} (h : Spells ps text) :
    cut text = (ps, none) := by
  induction h with
  | nil => rw [Piece.cut]
  | cons hp _ ih => rw [cut_of_spelling hp, ih]

/-- **The pieces of a text are the items that spell it.** -/
theorem cut_eq_none_iff {text : List Char} {ps : List Piece} :
    Piece.cut text = (ps, none) ↔ Spells ps text :=
  ⟨spells_of_cut, Spells.cut⟩

end Piece

end Asm256
