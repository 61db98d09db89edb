/-
Labels made from addresses.

The letters of a label are the digits of its address in base 26.  A loop makes them: each round puts
the letter of the last digit in front of those it has, and goes on with the number without that
digit (`Letters.round`) until nothing is left of it.  A number of any size has an end of this loop:
* `Letters.fst_iterate_round` — what is left of the number after some rounds;
* `Letters.ends_letters` — how many rounds there are, and the letters they make;
* `Item.Spelling.ofText_eq` — the token stream of a text that is one word;
* `Item.LabelName.ofText_label`, `Item.LabelName.ofText_definition` — the name of a label alone, and
  in front of a colon.

The main result is `labels_of_addresses`.
-/
import Asm256.Proofs.Listing.Written

namespace Asm256

/-! ### The loop that writes a number in letters -/

namespace Letters

/-- A round of the loop, on what is left of the number and the letters so far. -/
def round : Nat × List Char → Nat × List Char
  | (n, tail) => (n / 26, Char.ofNat ('a'.toNat + n % 26) :: tail)

/-- The loop for a number ends after `k` rounds with these letters: there is a round in any case,
and the first one that leaves nothing of the number is the last. -/
structure Ends (n k : Nat) (cs : List Char) : Prop where
  pos : 0 < k
  iterate_eq : round^[k] (n, []) = (0, cs)
  ne_zero : ∀ j, 0 < j → j < k → (round^[j] (n, [])).1 ≠ 0

theorem fst_iterate_round (k n : Nat) (tail : List Char) :
    (round^[k] (n, tail)).1 = n / 26 ^ k := by
  induction k generalizing n tail with
  | zero => rw [Function.iterate_zero_apply, Nat.pow_zero, Nat.div_one]
  | succ k ih =>
    rw [Function.iterate_succ_apply, round, ih, Nat.div_div_eq_div_mul, Nat.pow_succ, Nat.mul_comm]

/-- The rounds up to the number of digits make the letters. -/
theorem iterate_round_log (n : Nat) (tail : List Char) :
    round^[Nat.log 26 n + 1] (n, tail) = (0, letters n tail) := by
  fun_induction letters n tail with
  | case1 n tail more hlt =>
    rw [Nat.log_of_lt hlt, Function.iterate_one, round, Nat.div_eq_of_lt hlt]
  | case2 n tail more hge ih =>
    rw [Nat.log_of_one_lt_of_le (by decide) (Nat.le_of_not_lt hge), Function.iterate_succ_apply]
    exact ih

/-- **The loop ends for every number**, after one round for each of its digits. -/
theorem ends_letters (n : Nat) : Ends n (Nat.log 26 n + 1) (letters n []) where
  pos := Nat.succ_pos _
  iterate_eq := iterate_round_log n []
  ne_zero j hj hlt := by
    have hle : j ≤ Nat.log 26 n := Nat.le_of_lt_succ hlt
    have hn : n ≠ 0 := by
      rintro rfl
      rw [Nat.log_zero_right] at hle
      omega
    -- a digit is left as long as the power of 26 fits in the number
    rw [fst_iterate_round]
    exact (Nat.div_pos (Nat.pow_le_of_le_log hn hle) (Nat.pow_pos (by decide))).ne'

end Letters

/-! ### Texts of one word -/

/-- Without line feeds and tabs every character moves on by a column. -/
theorem Position.after_of_plain {text : List Char} (h : ∀ c ∈ text, c ≠ '\n' ∧ c ≠ '\t') (w : Nat)
    (p : Position) : p.after w text = ⟨p.line, p.column + text.length⟩ := by
  induction text generalizing p with
  | nil => rfl
  | cons c text ih =>
    obtain ⟨⟨hn, ht⟩, htext⟩ := List.forall_mem_cons.1 h
    rw [after_cons, advance, if_neg hn, if_neg ht, ih htext, List.length_cons, Nat.add_assoc,
      Nat.add_comm 1]

namespace Item

variable {text : List Char} {name : String}

/-- A text that is one item has the token stream of that piece. -/
theorem Spelling.ofText_eq {i : Item} (h : i.Spelling text []) (ha : Tally.Admits {} ⟨i, text⟩)
    (w : Nat) : TokenStream.ofText w text = .ok (Piece.stream w [⟨i, text⟩]) := by
  have hspells : Piece.Spells [⟨i, text⟩] text := .singleton h
  exact TokenStream.ofText_eq_ok_iff.2 ⟨_, Piece.cut_eq_none_iff.2 hspells, ⟨ha, trivial⟩, rfl⟩

/-- The place behind one piece. -/
theorem finish_singleton (w : Nat) (i : Item) (h : ∀ c ∈ text, c ≠ '\n' ∧ c ≠ '\t') :
    Piece.finish w .start [⟨i, text⟩] = ⟨1, 1 + text.length⟩ := by
  rw [Piece.finish, List.flatMap_singleton, Position.after_of_plain h]
  rfl

theorem LabelName.plain (h : LabelName name) : ∀ c ∈ name.toList, c ≠ '\n' ∧ c ≠ '\t' := by
  intro c hc
  have hname := isNameChar_iff.1 (h.isNameChar c hc)
  constructor <;> refine Char.ne_of_toNat ?_
  · show c.toNat ≠ 0x0A
    omega
  · show c.toNat ≠ 0x09
    omega

/-- **The name of a label alone is one operand**, which is that label. -/
theorem LabelName.ofText_label (h : LabelName name) (w : Nat) :
    TokenStream.ofText w name.toList = .ok
      { tokens := [⟨.operand (.label name), name, .start⟩, ⟨.endOfInput, "", ⟨1, 1 + name.length⟩⟩],
        labels := [], byteCount := 1 } := by
  have hspelled : Spelling (.token (.operand (.label name))) name.toList [] :=
    .label h loose_nil.isNameChar loose_nil.ne_colon
  have hfits : Tally.Admits {} ⟨.token (.operand (.label name)), name.toList⟩ := by
    show 0 + 1 ≤ memorySize
    decide
  rw [hspelled.ofText_eq hfits, Piece.stream, finish_singleton w _ h.plain]
  show Except.ok (TokenStream.mk [⟨_, String.ofList name.toList, _⟩, _] [] 1) = _
  rw [String.ofList_toList, String.length_toList]

/-- **The name of a label in front of a colon is one definition**, which is that of the label. -/
theorem LabelName.ofText_definition (h : LabelName name) (w : Nat) :
    TokenStream.ofText w (name ++ ":").toList = .ok
      { tokens := [⟨.labelDefinition, name ++ ":", .start⟩,
          ⟨.endOfInput, "", ⟨1, 1 + (name ++ ":").length⟩⟩],
        labels := [⟨name, 0, .start⟩], byteCount := 0 } := by
  have hcolon : (name ++ ":").toList = name.toList ++ [':'] := by
    rw [String.toList_append]
    rfl
  have hspelled : Spelling (.definition name) (name ++ ":").toList [] := by
    rw [hcolon]
    exact .definition h
  have hplain : ∀ c ∈ (name ++ ":").toList, c ≠ '\n' ∧ c ≠ '\t' := by
    rw [hcolon, List.forall_mem_append]
    exact ⟨h.plain, List.forall_mem_singleton.2 (by decide)⟩
  -- nothing stands in front, so the label is new and stands where a statement can start
  have hfirst : Tally.Admits {} ⟨.definition name, (name ++ ":").toList⟩ := ⟨rfl, rfl⟩
  rw [hspelled.ofText_eq hfirst, Piece.stream, finish_singleton w _ hplain]
  show Except.ok (TokenStream.mk [⟨_, String.ofList (name ++ ":").toList, _⟩, _] [_] 0) = _
  rw [String.ofList_toList, String.length_toList]
  rfl

end Item

/-- **Labels made from addresses are unique and usable**, for addresses of any size.  Different
addresses have different labels, and for every address the loop that makes its letters ends; the
label alone is read as one operand, which is that label, and with a colon behind it as its one
definition. -/
theorem labels_of_addresses (w : Nat) :
    (∀ m n, labelName m = labelName n → m = n) ∧
    ∀ n, let name := labelName n
      (∃ cs, Letters.Ends n (Nat.log 26 n + 1) cs ∧ name.toList = 'L' :: '_' :: cs) ∧
      TokenStream.ofText w name.toList = .ok
        { tokens := [⟨.operand (.label name), name, .start⟩,
            ⟨.endOfInput, "", ⟨1, 1 + name.length⟩⟩],
          labels := [], byteCount := 1 } ∧
      TokenStream.ofText w (name ++ ":").toList = .ok
        { tokens := [⟨.labelDefinition, name ++ ":", .start⟩,
            ⟨.endOfInput, "", ⟨1, 1 + (name ++ ":").length⟩⟩],
          labels := [⟨name, 0, .start⟩], byteCount := 0 } := by
  refine ⟨fun m n heq => labelName_injective heq, fun n => ?_⟩
  have hname := Item.labelName_labelName n
  exact ⟨⟨letters n [], Letters.ends_letters n, toList_labelName n⟩, hname.ofText_label w,
    hname.ofText_definition w⟩

/-- The first address whose label has two letters. -/
theorem labels_of_addresses_two_letters :
    labelName 26 = "L_ba" ∧ (∀ m, labelName m = "L_ba" → m = 26) ∧
      (∃ cs, Letters.Ends 26 2 cs ∧ "L_ba".toList = 'L' :: '_' :: cs) ∧
      TokenStream.ofText 4 "L_ba".toList = .ok
        { tokens := [⟨.operand (.label "L_ba"), "L_ba", ⟨1, 1⟩⟩, ⟨.endOfInput, "", ⟨1, 5⟩⟩],
          labels := [], byteCount := 1 } ∧
      TokenStream.ofText 4 "L_ba:".toList = .ok
        { tokens := [⟨.labelDefinition, "L_ba:", ⟨1, 1⟩⟩, ⟨.endOfInput, "", ⟨1, 6⟩⟩],
          labels := [⟨"L_ba", 0, ⟨1, 1⟩⟩], byteCount := 0 } := by
  have hname : labelName 26 = "L_ba" := by
    simp [labelName, letters]
  have hrounds : Nat.log 26 26 + 1 = 2 := by
    rw [Nat.log_eq_one_iff.2 ⟨by decide, by decide, le_rfl⟩]
  obtain ⟨hunique, hlabels⟩ := labels_of_addresses 4
  have hlabel := hlabels 26
  rw [hname, hrounds] at hlabel
  exact ⟨hname, fun m hm => hunique m 26 (hm.trans hname.symm), hlabel⟩

end Asm256
