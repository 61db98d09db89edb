/-
Texts with labels renamed.

A label has its name in the text wherever it is defined and wherever it is an operand.  With other
names in these places (`Text.renameLabels`) a text is cut where it was before: a name starts with a
character of names, whatever the name is, so what stands in front of it ends there as it did.
* `Text.Alike` — texts of which a word in front cannot tell which one is behind it;
* `Item.Spelling.rename` — an item with its label renamed, in front of a text that is alike;
* `Piece.Spells.rename` — the pieces with labels renamed spell the text with labels renamed.
-/
import Asm256.Proofs.Script.Items
import Asm256.Proofs.Source.Places

namespace Asm256

variable {f : String → String}

/-! ### Names for names -/

/-- The operand with another name if it is a label. -/
def Operand.rename (f : String → String) : Operand → Operand
  | .label name => .label (f name)
  | o => o

/-- The word with another name if it is a label. -/
def Word.rename (f : String → String) : Word → Word
  | .operand o => .operand (o.rename f)
  | word => word

namespace Item

/-- The item with another name if it is or defines a label. -/
def rename (f : String → String) : Item → Item
  | .gap => .gap
  | .token word => .token (word.rename f)
  | .definition name => .definition (f name)

/-- The name of the label that an item is or defines. -/
def label? : Item → Option String
  | .token (.operand (.label name)) | .definition name => some name
  | _ => none

theorem word?_rename (f : String → String) (i : Item) :
    (i.rename f).word? = i.word?.map (Word.rename f) := by
  cases i <;> rfl

theorem isSome_word?_rename (f : String → String) (i : Item) :
    (i.rename f).word?.isSome = i.word?.isSome := by
  rw [word?_rename, Option.isSome_map]

theorem name?_rename (f : String → String) (i : Item) : (i.rename f).name? = i.name?.map f := by
  cases i <;> rfl

theorem size_rename (f : String → String) (i : Item) : (i.rename f).size = i.size := by
  cases i with
  | token word => cases word <;> rfl
  | gap | definition name => rfl

end Item

/-- The piece with another name if it is or defines a label.  Other pieces keep their characters. -/
def Piece.rename (f : String → String) (p : Piece) : Piece where
  item := p.item.rename f
  text := match p.item with
    | .token (.operand (.label name)) => (f name).toList
    | .definition name => (f name).toList ++ [':']
    | _ => p.text

/-- A text with `f name` in the place of `name` wherever a label is defined or is an operand.  All
other characters are kept, those of comments too. -/
def Text.renameLabels (f : String → String) (text : List Char) : List Char :=
  Piece.textOf ((Piece.cut text).1.map (Piece.rename f))

/-! ### Texts that start alike -/

/-- The texts start with the same character, or both with a character of names, or both not at
all. -/
def Text.Alike (rest rest' : List Char) : Prop :=
  rest'.head? = rest.head? ∨
    (∃ c ∈ rest.head?, Item.isNameChar c) ∧ ∃ c ∈ rest'.head?, Item.isNameChar c

namespace Text.Alike

variable {rest rest' : List Char}

/-- Runs of a class end in front of the one text if they do in front of the other, when the class
holds all characters of names or none. -/
theorem stops {p : Char → Bool} {b : Bool} (h : Alike rest rest')
    (hp : ∀ c, Item.isNameChar c → p c = b) (hr : Stops p rest) : Stops p rest' := by
  intro c' hc'
  rcases h with heq | ⟨⟨c, hc, hname⟩, d, hd, hname'⟩
  · rw [heq] at hc'
    exact hr c' hc'
  · obtain rfl : d = c' := Option.some.inj (hd.symm.trans hc')
    rw [hp d hname', ← hp c hname]
    exact hr c hc

theorem isNameChar (h : Alike rest rest') (hr : Stops Item.isNameChar rest) :
    Stops Item.isNameChar rest' :=
  h.stops (fun _ hc => hc) hr

theorem isDigit (h : Alike rest rest') (hr : Stops Decimal.isDigit rest) :
    Stops Decimal.isDigit rest' := by
  refine h.stops (b := false) (fun c hc => ?_) hr
  have hcode := Item.isNameChar_iff.1 hc
  exact Decimal.isDigit_eq_false (by omega)

theorem newline (h : Alike rest rest') (hr : Stops (· != '\n') rest) : Stops (· != '\n') rest' := by
  refine h.stops (b := true) (fun c hc => ?_) hr
  rw [bne_iff_ne]
  rintro rfl
  exact absurd hc (by decide)

theorem ne_colon (h : Alike rest rest') (hr : rest.head? ≠ some ':') : rest'.head? ≠ some ':' := by
  rcases h with heq | ⟨-, c, hc, hname⟩
  · rwa [heq]
  · rw [Option.mem_def.1 hc]
    intro hcolon
    obtain rfl : c = ':' := Option.some.inj hcolon
    exact absurd hname (by decide)

end Text.Alike

namespace Item

variable {i : Item} {name : String} {chars rest rest' : List Char}

theorem LabelName.head (h : LabelName name) (more : List Char) :
    ∃ c ∈ (name.toList ++ more).head?, Item.isNameChar c := by
  obtain ⟨c, cs, hcs⟩ := List.exists_cons_of_ne_nil h.ne_nil
  refine ⟨c, ?_, h.isNameChar c ?_⟩
  · rw [hcs]
    rfl
  · rw [hcs]
    exact List.mem_cons_self

/-- What is or defines a label is its name, and maybe more behind it. -/
theorem Spelling.exists_tail (h : i.Spelling chars rest) (hi : i.label? = some name) :
    LabelName name ∧ ∃ tail, chars = name.toList ++ tail ∧
      ((⟨i, chars⟩ : Piece).rename f).text = (f name).toList ++ tail := by
  cases h with
  | label hn _ _ =>
    cases hi
    exact ⟨hn, [], (List.append_nil _).symm, (List.append_nil _).symm⟩
  | definition hn =>
    cases hi
    exact ⟨hn, [':'], rfl, rfl⟩
  | _ => cases hi

/-- What is and defines no label keeps its characters. -/
theorem text_rename (hi : i.label? = none) : ((⟨i, chars⟩ : Piece).rename f).text = chars := by
  unfold Piece.rename
  dsimp only
  split
  · cases hi
  · cases hi
  · rfl

/-- A text starts alike when its first piece has its label renamed, whatever is behind that. -/
theorem Spelling.alike (h : i.Spelling chars rest) (hf : ∀ name ∈ i.label?, LabelName (f name))
    (more more' : List Char) :
    Text.Alike (chars ++ more) (((⟨i, chars⟩ : Piece).rename f).text ++ more') := by
  cases hi : i.label? with
  | none =>
    obtain ⟨c, cs, rfl⟩ := List.exists_cons_of_ne_nil h.text_ne_nil
    rw [text_rename hi]
    exact .inl rfl
  | some name =>
    obtain ⟨hname, tail, htail, hrenamed⟩ := h.exists_tail (f := f) hi
    rw [htail] at hrenamed ⊢
    rw [hrenamed, List.append_assoc, List.append_assoc]
    exact .inr ⟨hname.head _, (hf name hi).head _⟩

/-- **An item with its label renamed is spelled in front of a text that is alike.** -/
theorem Spelling.rename (h : i.Spelling chars rest) (hf : ∀ name ∈ i.label?, LabelName (f name))
    (hr : Text.Alike rest rest') :
    (i.rename f).Spelling ((⟨i, chars⟩ : Piece).rename f).text rest' := by
  cases h with
  | newline => exact .newline
  | semicolon => exact .semicolon
  | comma => exact .comma
  | blank hc hn => exact .blank hc hn
  | lineComment hb hs => exact .lineComment hb (hr.newline hs)
  | blockComment hb => exact .blockComment hb
  | memory hn hs => exact .memory hn (hr.isDigit hs)
  | literal hn hs => exact .literal hn (hr.isDigit hs)
  | register hn hlt hs => exact .register hn hlt (hr.isDigit hs)
  | mnemonic hs => exact .mnemonic (hr.isNameChar hs)
  | label hn hs hc => exact .label (hf _ rfl) (hr.isNameChar hs) (hr.ne_colon hc)
  | definition hn => exact .definition (hf _ rfl)

end Item

/-! ### Pieces with labels renamed -/

namespace Piece

variable {ps : List Piece} {text : List Char}

/-- **The pieces of a text with labels renamed spell the text with labels renamed**, if the new names
are names of labels. -/
theorem Spells.rename (h : Spells ps text)
    (hf : ∀ p ∈ ps, ∀ name ∈ p.item.label?, Item.LabelName (f name)) :
    Spells (ps.map (Piece.rename f)) (textOf (ps.map (Piece.rename f))) := by
  induction h with
  | nil => exact .nil
  | @cons p ps rest hp hps ih =>
    rw [List.forall_mem_cons] at hf
    -- what is behind the piece starts as it did, with or without another name
    have halike : Text.Alike rest (textOf (ps.map (Piece.rename f))) := by
      cases hps with
      | nil => exact .inl rfl
      | @cons q qs rest hq _ => exact hq.alike ((List.forall_mem_cons.1 hf.2).1) _ _
    exact .cons (p := p.rename f) (hp.rename hf.1 halike) (ih hf.2)

theorem items_rename (f : String → String) (ps : List Piece) :
    items (ps.map (Piece.rename f)) = (items ps).map (Item.rename f) := by
  have hmap : (ps.map (Piece.rename f)).map Piece.item = (ps.map Piece.item).map (Item.rename f) := by
    rw [List.map_map, List.map_map]
    rfl
  have hword : (fun i : Item => i.word?.isSome) ∘ Item.rename f = fun i => i.word?.isSome :=
    funext fun i => i.isSome_word?_rename f
  rw [items, hmap, List.filter_map, hword, items]

theorem size_rename (f : String → String) (ps : List Piece) :
    size (ps.map (Piece.rename f)) = size ps := by
  have hsize : Item.size ∘ Item.rename f = Item.size := funext fun i => i.size_rename f
  rw [size_items, items_rename, List.map_map, hsize, size_items]

theorem names_rename (f : String → String) (ps : List Piece) :
    names (ps.map (Piece.rename f)) = (names ps).map f := by
  rw [names, items_rename, names, List.filterMap_map, List.map_filterMap]
  exact List.filterMap_congr fun i _ => i.name?_rename f

end Piece

end Asm256
