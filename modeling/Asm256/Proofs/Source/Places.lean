/-
Places by what stands in front of them.

The place behind some text is found by counting: the line feeds of the text, and
the characters behind the last of them, where a tab counts for the tab width
(`Position.behind`).  So it is enough to know what stands in front of a piece
(`Piece.spots`), whatever the tab width is:
* `Position.after_behind` — a reader that moves on comes to the place found by counting;
* `Piece.tokens_eq`, `Piece.labels_eq` — the tokens and the labels of pieces by what stands in front;
* `Piece.Leads` — pieces that stand in front of the rest of a text.
-/
import Asm256.Proofs.Source.Pieces
import Asm256.Proofs.Source.Spelling

namespace Asm256

/-- The characters of a text behind its last line feed. -/
def Text.lastLine (text : List Char) : List Char := (text.reverse.takeWhile (· != '\n')).reverse

theorem Text.lastLine_concat_newline (text : List Char) : lastLine (text ++ ['\n']) = [] := by
  simp [lastLine]

theorem Text.lastLine_concat {c : Char} (hc : c ≠ '\n') (text : List Char) :
    lastLine (text ++ [c]) = lastLine text ++ [c] := by
  simp [lastLine, hc]

namespace Position

variable {w w' : Nat} {front : List Char}

/-- The place behind a text: its line counts the line feeds, and its column the characters behind the
last of them, tabs by their width. -/
def behind (tabWidth : Nat) (front : List Char) : Position where
  line := 1 + front.count '\n'
  column := 1 + ((Text.lastLine front).map fun c => if c = '\t' then tabWidth else 1).sum

theorem behind_nil (w : Nat) : behind w [] = start := rfl

theorem behind_concat (w : Nat) (front : List Char) (c : Char) :
    behind w (front ++ [c]) = (behind w front).advance w c := by
  unfold advance behind
  by_cases hc : c = '\n'
  · rw [if_pos hc, hc, Text.lastLine_concat_newline]
    simp [Nat.add_assoc]
  · have hcount : (front ++ [c]).count '\n' = front.count '\n' := by
      simp [List.count_append, hc]
    rw [if_neg hc, Text.lastLine_concat hc, hcount, List.map_append, List.sum_append]
    by_cases ht : c = '\t'
    · simp [ht, Nat.add_assoc]
    · simp [ht, Nat.add_assoc]

/-- **A reader that moves on comes to the place that is found by counting.** -/
theorem after_behind (w : Nat) (front text : List Char) :
    (behind w front).after w text = behind w (front ++ text) := by
  induction text generalizing front with
  | nil => rw [after_nil, List.append_nil]
  | cons c text ih =>
    rw [after_cons, ← behind_concat, ih, List.append_assoc, List.singleton_append]

theorem after_start (w : Nat) (text : List Char) : start.after w text = behind w text := by
  rw [← behind_nil w, after_behind, List.nil_append]

/-- Without a tab on the line the width of tabs does not matter. -/
theorem behind_eq_of_notMem (h : '\t' ∉ Text.lastLine front) : behind w front = behind w' front := by
  have hmap : ∀ w : Nat, ((Text.lastLine front).map fun c => if c = '\t' then w else 1) =
      (Text.lastLine front).map fun _ => 1 := by
    intro w
    refine List.map_congr_left fun c hc => if_neg ?_
    rintro rfl
    exact h hc
  rw [behind, behind, hmap w, hmap w']

end Position

/-! ### Pieces and what stands in front of them -/

/-- A piece, with the text and the bytes of code in front of it. -/
structure Spot where
  front : List Char
  address : Nat
  piece : Piece

namespace Spot

/-- The token of the piece, at its place. -/
def token? (w : Nat) (s : Spot) : Option Token := s.piece.token? (.behind w s.front)

/-- The label that the piece defines, at its place and for its address. -/
def label? (w : Nat) (s : Spot) : Option Label := s.piece.label? (.behind w s.front) s.address

end Spot

namespace Piece

variable {w n : Nat} {front text rest : List Char} {ps qs : List Piece}

/-- The text that pieces take. -/
def textOf (ps : List Piece) : List Char := ps.flatMap Piece.text

@[simp] theorem textOf_nil : textOf [] = [] := rfl

@[simp] theorem textOf_cons (p : Piece) (ps : List Piece) : textOf (p :: ps) = p.text ++ textOf ps :=
  rfl

/-- Pieces at their spots, behind a text and `n` bytes of code. -/
def spots (front : List Char) (n : Nat) : List Piece → List Spot
  | [] => []
  | p :: ps => ⟨front, n, p⟩ :: spots (front ++ p.text) (n + p.item.size) ps

/-- **The tokens of pieces**, each at the place behind what stands in front of it. -/
theorem tokens_eq (w : Nat) (front : List Char) (n : Nat) (ps : List Piece) :
    tokens w (.behind w front) ps = (spots front n ps).filterMap (Spot.token? w) := by
  induction ps generalizing front n with
  | nil => rfl
  | cons p ps ih =>
    rw [tokens, spots, List.filterMap_cons, Position.after_behind, ih _ (n + p.item.size)]
    cases h : p.token? (.behind w front) <;> simp [Spot.token?, h]

/-- **The labels of pieces**, each at the place behind what stands in front of it. -/
theorem labels_eq (w : Nat) (front : List Char) (n : Nat) (ps : List Piece) :
    labels w (.behind w front) n ps = (spots front n ps).filterMap (Spot.label? w) := by
  induction ps generalizing front n with
  | nil => rfl
  | cons p ps ih =>
    rw [labels, spots, List.filterMap_cons, Position.after_behind, ih]
    cases h : p.label? (.behind w front) n <;> simp [Spot.label?, h]

/-- A spot among those of pieces stands behind the pieces in front of it. -/
theorem spots_eq_append_cons {before after : List Spot} {s : Spot}
    (h : spots front n ps = before ++ s :: after) : ∃ qs rs, ps = qs ++ s.piece :: rs ∧
      before = spots front n qs ∧ s.front = front ++ textOf qs ∧ s.address = n + size qs := by
  induction before generalizing front n ps with
  | nil =>
    cases ps with
    | nil => cases h
    | cons p ps =>
      cases h
      exact ⟨[], ps, rfl, rfl, by simp, rfl⟩
  | cons b before ih =>
    cases ps with
    | nil => cases h
    | cons p ps =>
      obtain ⟨rfl, htail⟩ := List.cons.inj h
      obtain ⟨qs, rs, rfl, rfl, hfront, haddress⟩ := ih htail
      refine ⟨p :: qs, rs, rfl, rfl, ?_, ?_⟩
      · rw [hfront, textOf_cons, List.append_assoc]
      · rw [haddress, size, size, List.map_cons, List.sum_cons, Nat.add_assoc]

/-! ### Pieces in front of the rest of a text -/

/-- The pieces spell the front of a text, and `rest` is behind them. -/
inductive Leads : List Piece → List Char → List Char → Prop
  | nil {rest : List Char} : Leads [] rest rest
  | cons {p : Piece} {ps : List Piece} {text rest : List Char}
      (hp : Item.Spelling p.item p.text text) (h : Leads ps text rest) :
      Leads (p :: ps) (p.text ++ text) rest

theorem Leads.text_eq (h : Leads ps text rest) : text = textOf ps ++ rest := by
  induction h with
  | nil => rfl
  | cons hp _ ih => rw [textOf_cons, List.append_assoc, ← ih]

theorem Spells.textOf_eq (h : Spells ps text) : textOf ps = text := by
  induction h with
  | nil => rfl
  | cons hp _ ih => rw [textOf_cons, ih]

/-- The pieces in front of one that spells a part of a text. -/
theorem Spells.leads {p : Piece} (h : Spells (ps ++ p :: qs) text) :
    ∃ rest, Leads ps text (p.text ++ rest) ∧ Item.Spelling p.item p.text rest := by
  induction ps generalizing text with
  | nil =>
    cases h with
    | cons hp _ => exact ⟨_, .nil, hp⟩
  | cons q ps ih =>
    cases h with
    | cons hq h =>
      obtain ⟨rest, hleads, hp⟩ := ih h
      exact ⟨rest, .cons hq hleads, hp⟩

end Piece

end Asm256
