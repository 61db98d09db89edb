/-
What an accepted text is assembled to.

* `assemble_eq_ok_iff` — a text is accepted when it is spelled by admissible pieces, its tokens
  are a sequence of statements, and each statement has an encoding; the image then holds the
  code of the statements.  The comparison of sizes at the end never fails;
* `Assembled.label` — a label stands for the bytes of the statements in front of its definition;
* `Assembled.writable` — operands of statements are writable;
* `Assembly.Sound` — what later results need of an assembly (`Assembly.sound_of_assemble`).
-/
import Asm256.Assembly
import Asm256.Proofs.Image.Layout
import Asm256.Proofs.Source.Tokens

namespace Asm256

variable {tree : SignatureTree} {w : Nat} {text : List Char} {ps : List Piece} {a : Assembly}

namespace Piece

theorem totalSize_tokens (w : Nat) (pos : Position) (ps : List Piece) :
    Token.totalSize (tokens w pos ps) = size ps := by
  induction ps generalizing pos with
  | nil => rfl
  | cons p ps ih =>
    rw [tokens, Token.totalSize_append, totalSize_token?, ih]
    simp [size]

/-- The tokens of a text that are read are all but the last. -/
theorem Spells.readTokens_stream (h : Spells ps text) :
    Statement.readTokens (stream w ps).tokens = tokens w .start ps := by
  show Statement.readTokens (tokens w .start ps ++ [⟨.endOfInput, "", finish w .start ps⟩]) = _
  rw [Statement.readTokens_append fun t ht => (h.writable t ht).1,
    Statement.readTokens_endOfInput rfl, List.append_nil]

end Piece

/-- The pieces of a text are assembled to its statements, its labels and their image. -/
structure Assembled (tree : SignatureTree) (w : Nat) (ps : List Piece) (a : Assembly) : Prop where
  admissible : Piece.Admissible w {} ps
  parsed : Statement.Sequence (Piece.stream w ps).tokens a.statements
  labels_eq : a.labels = (Piece.stream w ps).labels
  encodable : ∀ s ∈ a.statements, s.Encodable tree a.labels
  image : a.image.Holds (Statement.codeOf tree a.labels a.statements)

theorem bind_eq_ok_iff {α β ε : Type} {x : Except ε α} {f : α → Except ε β} {b : β} :
    x >>= f = .ok b ↔ ∃ v, x = .ok v ∧ f v = .ok b := by
  cases x <;> simp [bind, Except.bind]

theorem mapError_eq_ok_iff {α ε ε' : Type} {x : Except ε α} {f : ε → ε'} {v : α} :
    x.mapError f = .ok v ↔ x = .ok v := by
  cases x <;> simp [Except.mapError]

/-- A result with a property that is checked is a success. -/
theorem exists_ok_of_any {α ε : Type} {x : Except ε α} {p : α → Bool}
    (h : x.toOption.any p = true) : ∃ v, x = .ok v ∧ p v = true := by
  cases x with
  | error e => cases h
  | ok v => exact ⟨v, rfl, h⟩

/-- The statements of a text have as many bytes as its pieces. -/
theorem totalSize_of_sequence {ss : List Statement} (hs : Piece.Spells ps text)
    (h : Statement.Sequence (Piece.stream w ps).tokens ss) :
    Statement.totalSize ss = Piece.size ps := by
  rw [← h.totalSize_read, hs.readTokens_stream, Piece.totalSize_tokens]

/-- **When a text is accepted, and what it is assembled to.** -/
theorem assemble_eq_ok_iff :
    assemble tree w text = .ok a ↔ ∃ ps, Piece.Spells ps text ∧ Assembled tree w ps a := by
  unfold assemble scanText parseTokens encodeStatements
  simp only [bind_eq_ok_iff, mapError_eq_ok_iff, TokenStream.ofText_eq_ok_iff,
    Piece.cut_eq_none_iff, Statement.parse_eq_ok_iff, Image.encode_eq_ok_iff]
  constructor
  · rintro ⟨stream, ⟨ps, hs, ha, rfl⟩, ss, hss, i, ⟨he, -, hi⟩, h⟩
    refine ⟨ps, hs, ?_⟩
    split at h
    · cases h
    · cases h
      exact ⟨ha, hss, rfl, he, hi⟩
  · rintro ⟨ps, hs, h⟩
    obtain ⟨i, labels, ss⟩ := a
    obtain ⟨ha, hss, hl, he, hi⟩ := h
    obtain rfl : labels = (Piece.stream w ps).labels := hl
    have hsize := Statement.length_codeOf he
    have hle : Statement.totalSize ss ≤ memorySize := by
      rw [← hsize, ← hi.codeSize]
      exact i.codeSize_le
    refine ⟨_, ⟨ps, hs, ha, rfl⟩, ss, hss, i, ⟨he, hle, hi⟩, ?_⟩
    have heq : i.codeSize = (Piece.stream w ps).byteCount := by
      rw [hi.codeSize, hsize, totalSize_of_sequence hs hss]
      rfl
    rw [if_neg (by simpa using heq)]
    rfl

namespace Assembled

variable (h : Assembled tree w ps a)

include h

theorem codeSize_eq : a.image.codeSize = Statement.totalSize a.statements := by
  rw [h.image.codeSize, Statement.length_codeOf h.encodable]

/-- Operands of statements are writable. -/
theorem writable (hs : Piece.Spells ps text) :
    ∀ s ∈ a.statements, ∀ o ∈ s.operands, o.value.Writable := by
  intro s hmem o ho
  have hto := (h.parsed.mem s hmem).2 o ho
  rcases List.mem_append.1 hto with hto | hto
  · exact (hs.writable _ hto).2 o.value rfl
  · simp [Spelled.toToken] at hto

/-- **A label stands for the statements in front of its definition**: its address counts their
bytes, and they are those whose mnemonics stand before it in the text. -/
theorem label {l : Label} (hs : Piece.Spells ps text) (hl : l ∈ a.labels) :
    ∃ front back, a.statements = front ++ back ∧ l.address = Statement.totalSize front ∧
      (∀ s ∈ front, s.mnemonic.pos.Before l.pos) ∧
      (∀ s ∈ back, l.pos.Before s.mnemonic.pos) := by
  rw [h.labels_eq] at hl
  obtain ⟨front, d, back, heq, hd, hpos, haddress⟩ := Piece.exists_of_mem_labels hl
  set last : Token := ⟨.endOfInput, "", Piece.finish w .start ps⟩ with hlast
  have htokens : (Piece.stream w ps).tokens = front ++ d :: (back ++ [last]) := by
    show Piece.tokens w .start ps ++ [last] = _
    rw [heq, List.append_assoc, List.cons_append]
  have hread : ∀ u ∈ front, u.value ≠ .endOfInput := fun u hu =>
    (hs.writable u (by rw [heq]; exact List.mem_append_left _ hu)).1
  have hparsed := h.parsed
  rw [htokens] at hparsed
  obtain ⟨ss₁, ss₂, hss, h₁, h₂⟩ := hparsed.split hd hread
  have horder : (front ++ d :: back).Pairwise fun t u => t.pos.Before u.pos := by
    rw [← heq]
    exact hs.pairwise_tokens
  obtain ⟨-, hback, hfront⟩ := List.pairwise_append.1 horder
  refine ⟨ss₁, ss₂, hss, ?_, fun s hmem => ?_, fun s hmem => ?_⟩
  · rw [haddress, ← h₁.totalSize_read, Statement.readTokens_eq_self hread, Nat.zero_add]
  · rw [← hpos]
    exact hfront _ (h₁.mem s hmem).1 d (by simp)
  · -- the end of the input is no mnemonic
    rw [← hpos]
    rcases List.mem_append.1 (h₂.mem s hmem).1 with hmem | hmem
    · exact (List.pairwise_cons.1 hback).1 _ hmem
    · simp [hlast, Statement.head] at hmem

end Assembled

/-- An assembly whose parts fit together: the image holds the code of the statements, and the labels
stand between them. -/
structure Assembly.Sound (tree : SignatureTree) (a : Assembly) : Prop where
  encodable : ∀ s ∈ a.statements, s.Encodable tree a.labels
  writable : ∀ s ∈ a.statements, ∀ o ∈ s.operands, o.value.Writable
  image : a.image.Holds (Statement.codeOf tree a.labels a.statements)
  codeSize_eq : a.image.codeSize = Statement.totalSize a.statements
  label : ∀ l ∈ a.labels, ∃ front back, a.statements = front ++ back ∧
    l.address = Statement.totalSize front ∧ (∀ s ∈ front, s.mnemonic.pos.Before l.pos) ∧
    (∀ s ∈ back, l.pos.Before s.mnemonic.pos)

/-- The parts of an assembled text fit together. -/
theorem Assembly.sound_of_assemble (h : assemble tree w text = .ok a) : a.Sound tree := by
  obtain ⟨ps, hs, h⟩ := assemble_eq_ok_iff.1 h
  exact ⟨h.encodable, h.writable hs, h.image, h.codeSize_eq, fun l hl => h.label hs hl⟩

end Asm256
