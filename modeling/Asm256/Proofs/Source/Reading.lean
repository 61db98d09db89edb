/-
What is read at the front of a text.

A text that is put together from parts is cut part by part, if no part runs
into the next one.  Either all pieces of a part are found (`Piece.Reads`), or
there is an error in it (`Piece.Refused`), which then is that of the whole
text:
* `Piece.Reads.append`, `Piece.Reads.refused` — parts one after the other;
* `Piece.Reads.intercalate`, `Piece.refused_intercalate` — any number of parts with separators.
-/
import Asm256.Proofs.Script.Items
import Asm256.Proofs.Source.Spelling

namespace Asm256

namespace Item

theorem loose_nil : Loose [] := ⟨by rintro c ⟨⟩, by rintro c ⟨⟩, by simp⟩

theorem loose_cons {c : Char} {rest : List Char}
    (h : Decimal.isDigit c = false ∧ isNameChar c = false ∧ c ≠ ':') : Loose (c :: rest) :=
  ⟨stops_cons h.1, stops_cons h.2.1, by simpa using h.2.2⟩

end Item

namespace Piece

open Item (Loose loose_cons)

variable {is js : List Item} {text text' rest : List Char}

/-- In front of `rest`, the text is cut into pieces with these items and gaps. -/
def Reads (is : List Item) (text rest : List Char) : Prop :=
  ∃ ps, items ps = is ∧ cut (text ++ rest) = (ps ++ (cut rest).1, (cut rest).2)

/-- There is an error in the text. -/
def Refused (text : List Char) : Prop := ∃ ps e skipped, cut text = (ps, some (.error e skipped))

theorem items_append (ps qs : List Piece) : items (ps ++ qs) = items ps ++ items qs := by
  simp [items]

theorem Reads.nil : Reads [] [] rest := ⟨[], rfl, rfl⟩

theorem Reads.append (h : Reads is text (text' ++ rest)) (h' : Reads js text' rest) :
    Reads (is ++ js) (text ++ text') rest := by
  obtain ⟨ps, rfl, hps⟩ := h
  obtain ⟨qs, rfl, hqs⟩ := h'
  refine ⟨ps ++ qs, items_append ps qs, ?_⟩
  rw [List.append_assoc, hps, hqs, List.append_assoc]

theorem Reads.word {i : Item} (h : Item.Spelling i text rest) (hi : i ≠ .gap) :
    Reads [i] text rest := by
  refine ⟨[⟨i, text⟩], ?_, cut_of_spelling h⟩
  obtain ⟨word, hword⟩ : ∃ word, i.word? = some word := by
    cases i with
    | gap => exact absurd rfl hi
    | token word => exact ⟨word, rfl⟩
    | definition name => exact ⟨_, rfl⟩
  exact items_cons hword

/-- A word that is spelled alone is read in front of a text that it does not run into. -/
theorem Reads.of_loose {i : Item} (h : Item.Spelling i text []) (hi : i ≠ .gap)
    (hr : Loose rest) : Reads [i] text rest :=
  .word (h.of_loose hi hr) hi

theorem Reads.space : Reads [] [' '] rest :=
  ⟨[⟨.gap, [' ']⟩], rfl, cut_of_spelling (.blank (by decide) (by decide))⟩

/-- A text that is read to its end is spelled by the items. -/
theorem Reads.spells (h : Reads is text []) : ∃ ps, Spells ps text ∧ items ps = is := by
  obtain ⟨ps, rfl, hps⟩ := h
  refine ⟨ps, cut_eq_none_iff.1 ?_, rfl⟩
  simpa [cut] using hps

/-- An error behind what is read is an error of the whole. -/
theorem Reads.refused (h : Reads is text rest) (hr : Refused rest) : Refused (text ++ rest) := by
  obtain ⟨ps, -, hps⟩ := h
  obtain ⟨qs, e, skipped, hqs⟩ := hr
  exact ⟨ps ++ qs, e, skipped, by rw [hps, hqs]⟩

/-- A character that no item starts with is an error. -/
theorem refused_of_read {c : Char} {cs : List Char} {e : LexError} {skipped : List Char}
    (h : Item.read c cs = .error (.error e skipped)) : Refused (c :: cs) :=
  ⟨[], e, skipped, cut_of_read_error h⟩

/-! ### Parts with separators -/

section Separated

variable {α : Type} {f : α → List Item} {g : α → List Char} {sep : List Char} {i : Item}
  {as : List α} (hsep : ∀ rest, Reads [i] sep rest) (hl : ∀ rest, Loose (sep ++ rest))

include hsep hl

/-- Parts that are read in front of what they do not run into are read with separators. -/
theorem Reads.intercalate (h : ∀ a ∈ as, ∀ rest, Loose rest → Reads (f a) (g a) rest)
    (hr : Loose rest) : Reads ([i].intercalate (as.map f)) (sep.intercalate (as.map g)) rest := by
  induction as with
  | nil => exact .nil
  | cons a as ih =>
    rw [List.forall_mem_cons] at h
    rcases as with _ | ⟨b, as⟩
    · simpa using h.1 rest hr
    · have htail := ih h.2
      rw [List.map_cons, List.map_cons] at htail
      rw [List.map_cons, List.map_cons, List.map_cons, List.map_cons,
        List.intercalate_cons_cons, List.intercalate_cons_cons, List.append_assoc,
        List.append_assoc]
      refine .append ?_ ((hsep _).append htail)
      rw [List.append_assoc]
      exact h.1 _ (hl _)

/-- Parts with separators are refused if one of them is, when those in front of it are read. -/
theorem refused_intercalate {good : α → Prop}
    (hgood : ∀ a ∈ as, good a → ∀ rest, Loose rest → Reads (f a) (g a) rest)
    (hbad : ∀ a ∈ as, ¬ good a → ∀ rest, Loose rest → Refused (g a ++ rest))
    (hex : ∃ a ∈ as, ¬ good a) (hr : Loose rest) :
    Refused (sep.intercalate (as.map g) ++ rest) := by
  induction as with
  | nil => simp at hex
  | cons a as ih =>
    rw [List.forall_mem_cons] at hgood hbad
    simp only [List.mem_cons, exists_eq_or_imp] at hex
    rcases as with _ | ⟨b, as⟩
    · simpa using hbad.1 (by simpa using hex) rest hr
    · rw [List.map_cons, List.map_cons, List.intercalate_cons_cons, List.append_assoc,
        List.append_assoc]
      by_cases ha : good a
      · exact (hgood.1 ha _ (hl _)).refused
          ((hsep _).refused (ih hgood.2 hbad.2 (hex.resolve_left (not_not_intro ha))))
      · exact hbad.1 ha _ (hl _)

end Separated

end Piece

end Asm256
