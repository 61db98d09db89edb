/-
How assembly ends.

A text that is not assembled has an error of the program in it, or a numeral that
is too long to convert: the assembler itself does not fail, since the tokens of a
text that is read count as many bytes as its statements take
(`exists_error_of_assemble`).  So a text is assembled or has an error of the
program if it is spelled by items (`Piece.Spells.assemble`), and has one if there
is an error in it (`Piece.Refused.assemble`).
-/
import Asm256.Proofs.Assembled
import Asm256.Proofs.Source.Reading

namespace Asm256

variable {tree : SignatureTree} {w : Nat} {text : List Char} {ps : List Piece}

/-- A run of steps that fails does so at one of them. -/
theorem exists_of_foldlM_eq_error {σ α ε : Type} {f : σ → α → Except ε σ} {s : σ} {as : List α}
    {e : ε} (h : as.foldlM f s = .error e) : ∃ s', ∃ a ∈ as, f s' a = .error e := by
  induction as generalizing s with
  | nil => cases h
  | cons a as ih =>
    rw [List.foldlM_cons] at h
    cases hs : f s a with
    | error e' =>
      rw [hs] at h
      cases h
      exact ⟨s, a, by simp, hs⟩
    | ok s' =>
      rw [hs] at h
      obtain ⟨s'', b, hb, he⟩ := ih h
      exact ⟨s'', b, List.mem_cons_of_mem _ hb, he⟩

/-- Text is refused for an error of the program, or for a numeral that is too long. -/
theorem TokenStream.error_of_ofText {e : ScanError} (h : TokenStream.ofText w text = .error e) :
    (∃ l pos, e = .lexical l pos) ∨
      ∃ t, (Piece.cut text).2 = some (.tooLong t) ∧ e = .tooLong t := by
  rcases hc : Piece.cut text with ⟨ps, refusal⟩
  simp only [TokenStream.ofText, hc] at h
  cases hf : ps.foldlM (Tally.add w) {} with
  | error e' =>
    rw [hf] at h
    cases h
    obtain ⟨t, p, -, hadd⟩ := exists_of_foldlM_eq_error hf
    unfold Tally.add at hadd
    split at hadd
    · cases hadd
      exact .inl ⟨_, _, rfl⟩
    · cases hadd
  | ok t =>
    rw [hf] at h
    rcases refusal with _ | l | l
    · cases h
    · cases h
      exact .inl ⟨_, _, rfl⟩
    · cases h
      exact .inr ⟨l, rfl, rfl⟩

/-- **The statements of a text take the bytes that were counted**, so they fit in memory. -/
theorem TokenStream.totalSize_of_parse {stream : TokenStream} {ss : List Statement}
    (hscan : TokenStream.ofText w text = .ok stream)
    (hparse : Statement.parse stream.tokens = .ok ss) :
    Statement.totalSize ss = stream.byteCount ∧ stream.byteCount ≤ memorySize := by
  obtain ⟨ps, hcut, hadmissible, rfl⟩ := TokenStream.ofText_eq_ok_iff.1 hscan
  have hle := ((Piece.admissible_iff (Nat.zero_le _)).1 hadmissible).1
  rw [Nat.zero_add] at hle
  exact ⟨totalSize_of_sequence (Piece.cut_eq_none_iff.1 hcut) (Statement.parse_eq_ok_iff.1 hparse),
    hle⟩

/-- **Statements that fit have an image of their size**, or one of them has no encoding. -/
theorem Image.encode_of_fits (tree : SignatureTree) (labels : LabelTable) {ss : List Statement}
    (hle : Statement.totalSize ss ≤ memorySize) :
    (∃ i, Image.encode tree labels ss = .ok i ∧ i.codeSize = Statement.totalSize ss) ∨
      ∃ s, Image.encode tree labels ss = .error (.statement s) := by
  cases hi : Image.encode tree labels ss with
  | ok i =>
    obtain ⟨he, -, himage⟩ := Image.encode_eq_ok_iff.1 hi
    exact .inl ⟨i, rfl, by rw [himage.codeSize, Statement.length_codeOf he]⟩
  | error e =>
    obtain ⟨-, -, -, s, -, -, -, rfl⟩ := (Image.encode_eq_error_iff hle).1 hi
    exact .inr ⟨s, rfl⟩

/-- **A text that is not assembled has an error of the program**, or a numeral that is too long to
convert. -/
theorem exists_error_of_assemble {e : AssemblyError} (h : assemble tree w text = .error e) :
    (∃ s, e = .source s) ∨ ∃ t, (Piece.cut text).2 = some (.tooLong t) ∧ e = .tooLong t := by
  unfold assemble scanText parseTokens encodeStatements at h
  cases hscan : TokenStream.ofText w text with
  | error l =>
    rw [hscan] at h
    cases h
    rcases TokenStream.error_of_ofText hscan with ⟨l, pos, rfl⟩ | ⟨t, hcut, rfl⟩
    · exact .inl ⟨_, rfl⟩
    · exact .inr ⟨t, hcut, rfl⟩
  | ok stream =>
    rw [hscan] at h
    cases hparse : Statement.parse stream.tokens with
    | error l =>
      simp only [Except.mapError, bind, Except.bind, hparse] at h
      cases h
      exact .inl ⟨_, rfl⟩
    | ok ss =>
      obtain ⟨hsize, hle⟩ := TokenStream.totalSize_of_parse hscan hparse
      simp only [Except.mapError, bind, Except.bind, hparse] at h
      have hfits : Statement.totalSize ss ≤ memorySize := hsize ▸ hle
      rcases Image.encode_of_fits tree stream.labels hfits with ⟨i, hi, hcodeSize⟩ | ⟨s, hs⟩
      · rw [hi] at h
        simp only [hcodeSize, hsize, ne_eq, not_true_eq_false, if_false] at h
        cases h
      · rw [hs] at h
        cases h
        exact .inl ⟨_, rfl⟩

/-- The error of the program that a result is. -/
def sourceError? {α : Type} : Except AssemblyError α → Option SourceError
  | .error (.source e) => some e
  | _ => none

/-- An error of the program with a property that is checked. -/
theorem exists_source_of_any {α : Type} {x : Except AssemblyError α} {p : SourceError → Bool}
    (h : (sourceError? x).any p = true) : ∃ e, x = .error (.source e) ∧ p e = true := by
  unfold sourceError? at h
  split at h
  · next e => exact ⟨e, rfl, h⟩
  · cases h

/-- A text that is spelled by items is assembled, or has an error of the program. -/
theorem Piece.Spells.assemble (h : Spells ps text) (tree : SignatureTree) (w : Nat) :
    (∃ a, Asm256.assemble tree w text = .ok a) ∨
      ∃ e, Asm256.assemble tree w text = .error (.source e) := by
  cases hr : Asm256.assemble tree w text with
  | ok a => exact .inl ⟨a, rfl⟩
  | error e =>
    rcases exists_error_of_assemble hr with ⟨s, rfl⟩ | ⟨t, hcut, -⟩
    · exact .inr ⟨s, rfl⟩
    · rw [cut_eq_none_iff.2 h] at hcut
      cases hcut

/-- A text with an error in it has an error of the program. -/
theorem Piece.Refused.assemble (h : Refused text) (tree : SignatureTree) (w : Nat) :
    ∃ e, Asm256.assemble tree w text = .error (.source e) := by
  obtain ⟨ps, e, skipped, hcut⟩ := h
  cases hr : Asm256.assemble tree w text with
  | ok a =>
    obtain ⟨qs, hqs, -⟩ := assemble_eq_ok_iff.1 hr
    rw [cut_eq_none_iff.2 hqs] at hcut
    cases hcut
  | error e =>
    rcases exists_error_of_assemble hr with ⟨s, rfl⟩ | ⟨t, hcut', -⟩
    · exact ⟨s, rfl⟩
    · rw [hcut] at hcut'
      cases hcut'

end Asm256
