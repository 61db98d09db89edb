/-
How scripts are written.

A text renders a script when it is spelled by the items of the script, with
gaps anywhere (`Script.Rendering`).  Words that gaps keep apart do not run into
each other, so a script may be written word by word (`Script.Written`):
* words of a line have blanks and block comments between them, and at least one of these;
* a line ends with a semicolon or a line feed, which may have a line comment in front.

`Script.Written.rendering` — a text that is written in this way renders the script.
-/
import Asm256.Proofs.Script.Items
import Asm256.Proofs.Script.Line

namespace Asm256

namespace Script

/-- The text is spelled by the items of the script, and by gaps. -/
def Rendering (p : Script) (text : List Char) : Prop :=
  ∃ ps, Piece.Spells ps text ∧ Spelled p (Piece.items ps)

/-- Blanks other than line feeds, and closed block comments. -/
inductive Gap : List Char → Prop
  | nil : Gap []
  | blank {c : Char} {gap : List Char} (hc : Text.isBlank c) (hn : c ≠ '\n') (h : Gap gap) :
      Gap (c :: gap)
  | comment {body gap : List Char} (hb : Item.CommentBody body) (h : Gap gap) :
      Gap ('/' :: '*' :: (body ++ gap))

/-- Nothing, or a comment for the rest of a line. -/
inductive Remark : List Char → Prop
  | none : Remark []
  | comment {body : List Char} (hb : '\n' ∉ body) : Remark ('/' :: '/' :: body)

/-- What ends a line. -/
inductive LineEnd : List Char → Prop
  | semicolon : LineEnd [';']
  | newline {remark : List Char} (h : Remark remark) : LineEnd (remark ++ ['\n'])

/-- Each item is written as if it stood alone, and there are gaps between them. -/
inductive Spaced : List Item → List Char → Prop
  | nil : Spaced [] []
  | last {i : Item} {text : List Char} (hi : i.Spelling text []) : Spaced [i] text
  | cons {i : Item} {is : List Item} {text gap rest : List Char} (hi : i.Spelling text [])
      (hg : Gap gap) (hne : gap ≠ []) (h : Spaced is rest) :
      Spaced (i :: is) (text ++ (gap ++ rest))

/-- Lines are written one after the other, word by word. -/
inductive Written : Script → List Char → Prop
  | nil : Written [] []
  | last {l : Line} {gap text remark : List Char} (hg : Gap gap) (hl : Spaced l.items text)
      (hr : Remark remark) : Written [l] (gap ++ (text ++ remark))
  | line {l : Line} {p : Script} {gap text stop rest : List Char} (hg : Gap gap)
      (hl : Spaced l.items text) (hs : LineEnd stop) (h : Written p rest) :
      Written (l :: p) (gap ++ (text ++ (stop ++ rest)))

/-! ### Words that are apart -/

/-- A text that no word in front of it runs into: it starts with a blank, a comment or a semicolon,
or not at all. -/
def Apart (rest : List Char) : Prop :=
  ∀ c ∈ rest.head?, Text.isBlank c ∨ c = '/' ∨ c = ';'

variable {rest gap text : List Char}

theorem apart_nil : Apart [] := by
  intro c hc
  cases hc

theorem Gap.apart_append (h : Gap gap) (hr : Apart rest) : Apart (gap ++ rest) := by
  cases h with
  | nil => exact hr
  | blank hc hn h =>
    intro c hmem
    cases hmem
    exact .inl hc
  | comment hb h =>
    intro c hmem
    cases hmem
    exact .inr (.inl rfl)

theorem Gap.apart (h : Gap gap) (hne : gap ≠ []) (rest : List Char) : Apart (gap ++ rest) := by
  obtain ⟨c, gap, rfl⟩ := List.exists_cons_of_ne_nil hne
  intro d hd
  exact h.apart_append apart_nil d (by simpa using hd)

theorem Remark.apart (h : Remark text) : Apart text := by
  cases h with
  | none => exact apart_nil
  | comment hb =>
    intro c hmem
    cases hmem
    exact .inr (.inl rfl)

theorem LineEnd.apart (h : LineEnd text) (rest : List Char) : Apart (text ++ rest) := by
  intro c hmem
  cases h with
  | semicolon =>
    cases hmem
    exact .inr (.inr rfl)
  | newline h =>
    cases h with
    | none =>
      cases hmem
      exact .inl (by decide)
    | comment hb =>
      cases hmem
      exact .inr (.inl rfl)

/-- A blank, a slash and a semicolon are neither digits nor characters of names, nor a colon. -/
theorem Apart.stops {c : Char} (hr : Apart rest) (hc : c ∈ rest.head?) :
    Decimal.isDigit c = false ∧ Item.isNameChar c = false ∧ c ≠ ':' := by
  rcases hr c hc with hb | rfl | rfl
  · have hb := Text.isBlank_iff.1 hb
    refine ⟨Decimal.isDigit_eq_false (by omega), ?_, Char.ne_of_toNat (by simp; omega)⟩
    refine Bool.eq_false_iff.2 fun hn => ?_
    have := Item.isNameChar_iff.1 hn
    omega
  · decide
  · decide

/-- No word runs into a text that is apart. -/
theorem Apart.loose (hr : Apart rest) : Item.Loose rest where
  isDigit _ hc := (hr.stops hc).1
  isNameChar _ hc := (hr.stops hc).2.1
  ne_colon hc := (hr.stops (Option.mem_def.2 hc)).2.2 rfl

/-! ### From lines to pieces -/

variable {ps : List Piece}

/-- A gap in front adds pieces, but no items. -/
theorem Gap.spells (h : Gap gap) (hps : Piece.Spells ps rest) :
    ∃ qs, Piece.Spells qs (gap ++ rest) ∧ Piece.items qs = Piece.items ps := by
  induction h with
  | nil => exact ⟨ps, hps, rfl⟩
  | @blank c gap hc hn _ ih =>
    obtain ⟨qs, hqs, heq⟩ := ih
    refine ⟨⟨.gap, [c]⟩ :: qs, .cons (.blank hc hn) hqs, ?_⟩
    rw [Piece.items_cons_of_gap rfl, heq]
  | @comment body gap hb _ ih =>
    obtain ⟨qs, hqs, heq⟩ := ih
    refine ⟨⟨.gap, '/' :: '*' :: body⟩ :: qs, ?_, ?_⟩
    · have hcomment := Piece.Spells.cons (p := ⟨.gap, '/' :: '*' :: body⟩) (.blockComment hb) hqs
      rw [List.cons_append, List.cons_append, List.append_assoc]
      exact hcomment
    · rw [Piece.items_cons_of_gap rfl, heq]

/-- A comment for the rest of a line adds no items. -/
theorem Remark.spells {remark : List Char} (h : Remark remark)
    (hr : Text.Stops (· != '\n') rest) (hps : Piece.Spells ps rest) :
    ∃ qs, Piece.Spells qs (remark ++ rest) ∧ Piece.items qs = Piece.items ps := by
  cases h with
  | none => exact ⟨ps, hps, rfl⟩
  | @comment body hb =>
    refine ⟨⟨.gap, '/' :: '/' :: body⟩ :: ps, .cons (.lineComment hb hr) hps, ?_⟩
    exact Piece.items_cons_of_gap rfl

/-- The end of a line adds a delimiter. -/
theorem LineEnd.spells {stop : List Char} (h : LineEnd stop) (hps : Piece.Spells ps rest) :
    ∃ qs d, d.isDelimiter ∧ Piece.Spells qs (stop ++ rest) ∧
      Piece.items qs = .token d :: Piece.items ps := by
  cases h with
  | semicolon =>
    refine ⟨⟨.token .semicolon, [';']⟩ :: ps, .semicolon, rfl, .cons .semicolon hps, ?_⟩
    exact Piece.items_cons (show Item.word? (.token .semicolon) = some .semicolon from rfl)
  | newline h =>
    have hfeed : Piece.Spells (⟨.token .newline, ['\n']⟩ :: ps) ('\n' :: rest) :=
      .cons .newline hps
    have hstops : Text.Stops (· != '\n') ('\n' :: rest) := Item.stops_cons (by decide)
    obtain ⟨qs, hqs, heq⟩ := h.spells hstops hfeed
    refine ⟨qs, .newline, rfl, by simpa using hqs, ?_⟩
    rw [heq, Piece.items_cons (show Item.word? (.token .newline) = some .newline from rfl)]

/-- A word that is apart from a text adds its item. -/
theorem spells_of_apart {i : Item} (hi : i.Spelling text []) (hword : i.word?.isSome)
    (hr : Apart rest) (hps : Piece.Spells ps rest) :
    Piece.Spells (⟨i, text⟩ :: ps) (text ++ rest) ∧
      Piece.items (⟨i, text⟩ :: ps) = i :: Piece.items ps := by
  obtain ⟨word, hword⟩ := Option.isSome_iff_exists.1 hword
  have hgap : i ≠ .gap := by
    rintro rfl
    cases hword
  exact ⟨.cons (hi.of_loose hgap hr.loose) hps, Piece.items_cons hword⟩

/-- Words that are written apart add their items. -/
theorem Spaced.spells {is : List Item} (h : Spaced is text) (his : ∀ i ∈ is, i.word?.isSome)
    (hr : Apart rest) (hps : Piece.Spells ps rest) :
    ∃ qs, Piece.Spells qs (text ++ rest) ∧ Piece.items qs = is ++ Piece.items ps := by
  induction h with
  | nil => exact ⟨ps, hps, rfl⟩
  | last hi =>
    obtain ⟨hspells, heq⟩ := spells_of_apart hi (his _ (by simp)) hr hps
    exact ⟨_, hspells, heq⟩
  | cons hi hg hne _ ih =>
    rw [List.forall_mem_cons] at his
    obtain ⟨qs, hqs, hitems⟩ := ih his.2
    obtain ⟨rs, hrs, hrest⟩ := hg.spells hqs
    obtain ⟨hspells, heq⟩ := spells_of_apart hi his.1 (hg.apart hne _) hrs
    refine ⟨_, ?_, heq.trans ?_⟩
    · rw [List.append_assoc, List.append_assoc]
      exact hspells
    · rw [hrest, hitems, List.cons_append]

theorem isSome_word?_items (l : Line) : ∀ i ∈ l.items, i.word?.isSome := by
  intro i hi
  rw [Line.items, List.mem_append, List.mem_map, List.mem_map] at hi
  rcases hi with ⟨name, -, rfl⟩ | ⟨word, -, rfl⟩ <;> rfl

/-- **A script that is written word by word is rendered.** -/
theorem Written.rendering {p : Script} (h : Written p text) : p.Rendering text := by
  -- pieces are put together from the end of a line to its start
  induction h with
  | nil => exact ⟨[], .nil, .nil⟩
  | @last l gap text remark hg hl hr =>
    have hend : Text.Stops (· != '\n') [] := by
      intro c hc
      cases hc
    obtain ⟨ps, hps, hnil⟩ := hr.spells hend .nil
    rw [List.append_nil] at hps
    obtain ⟨qs, hqs, hitems⟩ := hl.spells (isSome_word?_items l) hr.apart hps
    obtain ⟨rs, hrs, heq⟩ := hg.spells hqs
    refine ⟨rs, hrs, ?_⟩
    rw [heq, hitems, hnil]
    exact (List.append_nil l.items).symm ▸ .last l
  | @line l p gap text stop rest hg hl hs _ ih =>
    obtain ⟨ps, hps, hp⟩ := ih
    obtain ⟨qs, d, hd, hqs, hdelimiter⟩ := hs.spells hps
    obtain ⟨rs, hrs, hitems⟩ := hl.spells (isSome_word?_items l) (hs.apart rest) hqs
    obtain ⟨ss, hss, heq⟩ := hg.spells hrs
    refine ⟨ss, hss, ?_⟩
    rw [heq, hitems, hdelimiter]
    exact .line l hd hp

end Script

end Asm256
