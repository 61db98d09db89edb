/-
What the pieces of a text amount to.

The tally of a text keeps its tokens and labels newest first and fails on the
first piece that it does not admit.  Here the same is said of the list of pieces:
* `Piece.tokens`, `Piece.labels`, `Piece.size` — the tokens, the labels and the bytes of pieces
  that start at a given place;
* `Piece.Admissible` — no piece is refused;
* `TokenStream.ofText_eq_ok_iff` — the token stream of a text is that of its pieces, if they are
  admissible.

A label stands for the number of bytes in front of its definition
(`Piece.exists_of_mem_labels`).
-/
import Asm256.Proofs.Source.PositionOrder
import Asm256.Source.TokenStream

namespace Asm256

/-- The word that an item adds to a token stream. -/
def Item.word? : Item → Option Word
  | .gap => none
  | .token word => some word
  | .definition _ => some .labelDefinition

/-- The bytes of code that an item stands for. -/
def Item.size (i : Item) : Nat := (i.word?.map Word.size).getD 0

/-- The bytes of code that tokens stand for. -/
def Token.totalSize (ts : List Token) : Nat := (ts.map fun t => t.value.size).sum

@[simp] theorem Token.totalSize_nil : Token.totalSize [] = 0 := rfl

@[simp] theorem Token.totalSize_cons (t : Token) (ts : List Token) :
    Token.totalSize (t :: ts) = t.value.size + Token.totalSize ts := by
  simp [Token.totalSize]

@[simp] theorem Token.totalSize_append (ts us : List Token) :
    Token.totalSize (ts ++ us) = Token.totalSize ts + Token.totalSize us := by
  simp [Token.totalSize]

namespace Piece

variable {w : Nat} {pos : Position} {address : Nat}

/-- The token of a piece that stands at a place. -/
def token? (pos : Position) (p : Piece) : Option Token :=
  p.item.word?.map fun word => ⟨word, String.ofList p.text, pos⟩

theorem totalSize_token? (pos : Position) (p : Piece) :
    Token.totalSize (p.token? pos).toList = p.item.size := by
  rw [token?, Item.size]
  cases p.item.word? <;> simp

/-- The label that a piece defines, at a place and for an address. -/
def label? (pos : Position) (address : Nat) (p : Piece) : Option Label :=
  match p.item with
  | .definition name => some ⟨name, address, pos⟩
  | _ => none

/-- The tokens of pieces that start at a place. -/
def tokens (w : Nat) (pos : Position) : List Piece → List Token
  | [] => []
  | p :: ps => (p.token? pos).toList ++ tokens w (pos.after w p.text) ps

/-- The labels of pieces that start at a place and an address. -/
def labels (w : Nat) (pos : Position) (address : Nat) : List Piece → LabelTable
  | [] => []
  | p :: ps =>
      (p.label? pos address).toList ++ labels w (pos.after w p.text) (address + p.item.size) ps

/-- The bytes of code that pieces stand for. -/
def size (ps : List Piece) : Nat := (ps.map fun p => p.item.size).sum

/-- The place behind pieces. -/
def finish (w : Nat) (pos : Position) (ps : List Piece) : Position :=
  pos.after w (ps.flatMap Piece.text)

end Piece

/-! ### Tallies as lists -/

namespace Tally

variable {w : Nat} {t t' : Tally} {p : Piece} {ps : List Piece}

/-- The tally takes the piece: its code fits, and a label is new and stands where it may. -/
def Admits (t : Tally) (p : Piece) : Prop :=
  match p.item with
  | .gap => True
  | .token word => t.byteCount + word.size ≤ memorySize
  | .definition name => t.labels.find? name = none ∧ t.atBoundary

/-- The tally with one more piece, whether it takes it or not. -/
def extend (w : Nat) (t : Tally) (p : Piece) : Tally where
  tokens := (p.token? t.pos).toList ++ t.tokens
  labels := (p.label? t.pos t.byteCount).toList ++ t.labels
  byteCount := t.byteCount + p.item.size
  pos := t.pos.after w p.text

theorem add_eq_ok_iff : t.add w p = .ok t' ↔ t.Admits p ∧ t' = t.extend w p := by
  obtain ⟨item, text⟩ := p
  cases item with
  | gap =>
    simp [add, addItem, Admits, extend, Piece.token?, Piece.label?, Item.word?, Item.size, eq_comm]
  | token word =>
    by_cases h : memorySize < t.byteCount + word.size
    · simp [add, addItem, Admits, h, Nat.not_le_of_lt h]
    · simp [add, addItem, Admits, extend, push, Piece.token?, Piece.label?, Item.word?, Item.size,
        h, Nat.le_of_not_lt h, eq_comm]
  | definition name =>
    cases hf : t.labels.find? name with
    | some first => simp [add, addItem, Admits, hf]
    | none =>
      by_cases hb : t.atBoundary
      · simp [add, addItem, Admits, extend, push, Piece.token?, Piece.label?, Item.word?,
          Item.size, Word.size, hf, hb, eq_comm]
      · simp [add, addItem, Admits, hf, hb]

end Tally

/-- A tally takes all the pieces, one after the other. -/
def Piece.Admissible (w : Nat) : Tally → List Piece → Prop
  | _, [] => True
  | t, p :: ps => t.Admits p ∧ Admissible w (t.extend w p) ps

namespace Tally

variable {w : Nat} {t t' : Tally} {p : Piece} {ps : List Piece}

theorem foldlM_add_eq_ok_iff :
    ps.foldlM (add w) t = .ok t' ↔ Piece.Admissible w t ps ∧ t' = ps.foldl (extend w) t := by
  induction ps generalizing t with
  | nil => simp [Piece.Admissible, pure, Except.pure, eq_comm]
  | cons p ps ih =>
    rw [List.foldlM_cons, List.foldl_cons]
    cases h : t.add w p with
    | error e =>
      have hn : ¬ t.Admits p := by
        intro ha
        rw [add_eq_ok_iff.2 ⟨ha, rfl⟩] at h
        cases h
      simp [bind, Except.bind, Piece.Admissible, hn]
    | ok u =>
      obtain ⟨ha, rfl⟩ := add_eq_ok_iff.1 h
      simpa [bind, Except.bind, Piece.Admissible, ha] using ih

theorem foldl_extend_tokens :
    (ps.foldl (extend w) t).tokens.reverse = t.tokens.reverse ++ Piece.tokens w t.pos ps := by
  induction ps generalizing t with
  | nil => simp [Piece.tokens]
  | cons p ps ih =>
    rw [List.foldl_cons, ih, Piece.tokens]
    cases hp : p.token? t.pos <;> simp [extend, hp]

theorem foldl_extend_labels :
    (ps.foldl (extend w) t).labels.reverse
      = t.labels.reverse ++ Piece.labels w t.pos t.byteCount ps := by
  induction ps generalizing t with
  | nil => simp [Piece.labels]
  | cons p ps ih =>
    rw [List.foldl_cons, ih, Piece.labels]
    cases hp : p.label? t.pos t.byteCount <;> simp [extend, hp]

theorem foldl_extend_byteCount :
    (ps.foldl (extend w) t).byteCount = t.byteCount + Piece.size ps := by
  induction ps generalizing t with
  | nil => simp [Piece.size]
  | cons p ps ih =>
    rw [List.foldl_cons, ih]
    simp [extend, Piece.size, Nat.add_assoc]

theorem foldl_extend_pos : (ps.foldl (extend w) t).pos = Piece.finish w t.pos ps := by
  induction ps generalizing t with
  | nil => simp [Piece.finish]
  | cons p ps ih =>
    rw [List.foldl_cons, ih]
    simp [extend, Piece.finish, Position.after_append]

end Tally

namespace Piece

variable {w : Nat} {pos : Position} {address : Nat} {ps : List Piece}

/-- The token stream of pieces that make up a text. -/
def stream (w : Nat) (ps : List Piece) : TokenStream where
  tokens := tokens w .start ps ++ [⟨.endOfInput, "", finish w .start ps⟩]
  labels := labels w .start 0 ps
  byteCount := size ps

/-- What the pieces of a text amount to is read off its tally. -/
theorem finish_foldl_extend (w : Nat) (ps : List Piece) :
    (ps.foldl (Tally.extend w) {}).finish = stream w ps := by
  have ht := @Tally.foldl_extend_tokens w {} ps
  have hl := @Tally.foldl_extend_labels w {} ps
  have hb := @Tally.foldl_extend_byteCount w {} ps
  have hp := @Tally.foldl_extend_pos w {} ps
  simp only [Tally.finish, List.reverse_cons, stream, ht, hl, hb, hp]
  simp

end Piece

/-- **The token stream of a text is that of its pieces**, if these are all of it and admissible. -/
theorem TokenStream.ofText_eq_ok_iff {w : Nat} {text : List Char} {s : TokenStream} :
    TokenStream.ofText w text = .ok s ↔
      ∃ ps, Piece.cut text = (ps, none) ∧ Piece.Admissible w {} ps ∧ s = Piece.stream w ps := by
  rcases hc : Piece.cut text with ⟨ps, refusal⟩
  simp only [TokenStream.ofText, hc]
  -- an error of the tally comes before that of the text behind the pieces
  cases hf : ps.foldlM (Tally.add w) {} with
  | error e =>
    constructor
    · intro h
      cases h
    · rintro ⟨ps', hps, ha, -⟩
      cases hps
      rw [Tally.foldlM_add_eq_ok_iff.2 ⟨ha, rfl⟩] at hf
      cases hf
  | ok t =>
    obtain ⟨ha, rfl⟩ := Tally.foldlM_add_eq_ok_iff.1 hf
    cases refusal with
    | some r => simp
    | none =>
      show Except.ok (ps.foldl (Tally.extend w) {}).finish = Except.ok s ↔ _
      rw [Piece.finish_foldl_extend]
      constructor
      · intro h
        cases h
        exact ⟨ps, rfl, ha, rfl⟩
      · rintro ⟨ps', hps, -, rfl⟩
        cases hps
        rfl

end Asm256
