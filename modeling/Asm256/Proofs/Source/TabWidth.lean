/-
Readings of one text with two tab widths.

The width of tabs moves columns, and nothing else.  Two scans of a text go on in
lockstep (`Tally.Beside`), and what comes of the tokens does not look at their
places:
* `Position.Beside` — the places of one part of a text for the two widths;
* `Tally.Scans.beside` — the scans take the same steps;
* `TokenStream.ofText_matches` — they end in streams that match, or in the same error;
* `tab_width_moves_columns` — so do the assemblies.
-/
import Asm256.Instruction.Table
import Asm256.Proofs.Source.Locations
import Asm256.Proofs.Source.Matching

namespace Asm256

/-- The places of one part of a text, for the tab widths `w` and `w'`: they are in the same line, and
in different columns only if a tab is in front of the part on that line. -/
structure Position.Beside (w w' : Nat) (text : List Char) (lexeme : String) (p p' : Position) :
    Prop where
  line_eq : p'.line = p.line
  exists_front : ∃ front rest, text = front ++ lexeme.toList ++ rest ∧ p = .behind w front ∧
    p' = .behind w' front ∧ (p'.column ≠ p.column → '\t' ∈ Text.lastLine front)

variable {w w' : Nat} {text front rest : List Char}

theorem Position.beside_behind {lexeme : String} (h : text = front ++ lexeme.toList ++ rest) :
    Beside w w' text lexeme (.behind w front) (.behind w' front) := by
  refine ⟨rfl, front, rest, h, rfl, rfl, fun hne => ?_⟩
  by_contra hmem
  exact hne (congrArg Position.column (behind_eq_of_notMem hmem))

namespace Tally

/-- The tallies of the same text in front, for the two widths: they have the same tokens and labels
at places beside each other. -/
structure Beside (w w' : Nat) (text front : List Char) (t t' : Tally) : Prop where
  pos_eq : t.pos = .behind w front
  pos_eq' : t'.pos = .behind w' front
  tokens : List.Forall₂ (Spelled.Matches (Position.Beside w w' text)) t.tokens t'.tokens
  labels : List.Forall₂ (Label.Matches (Position.Beside w w' text)) t.labels t'.labels
  byteCount_eq : t'.byteCount = t.byteCount

variable {t t' : Tally}

theorem beside_empty (w w' : Nat) (text : List Char) : Beside w w' text [] {} {} :=
  ⟨rfl, rfl, .nil, .nil, rfl⟩

/-- A statement can start behind the one tally if it can behind the other. -/
theorem Beside.atBoundary_eq (h : Beside w w' text front t t') : t'.atBoundary = t.atBoundary := by
  obtain ⟨-, -, htokens, -, -⟩ := h
  unfold atBoundary
  generalize t.tokens = ts at htokens
  generalize t'.tokens = ts' at htokens
  induction htokens with
  | nil => rfl
  | @cons u u' us us' hu _ ih =>
    rw [List.find?_cons, List.find?_cons, hu.value_eq]
    cases u.value != .labelDefinition with
    | true => simp only [hu.value_eq]
    | false => exact ih

/-- The one tally takes a piece if the other does. -/
theorem Beside.admits (h : Beside w w' text front t t') {p : Piece} (ha : t.Admits p) :
    t'.Admits p := by
  obtain ⟨item, chars⟩ := p
  cases item with
  | gap => trivial
  | token word =>
    have hle : t.byteCount + word.size ≤ memorySize := ha
    show t'.byteCount + word.size ≤ memorySize
    rwa [h.byteCount_eq]
  | definition name =>
    obtain ⟨hnew, hplace⟩ : t.labels.find? name = none ∧ t.atBoundary := ha
    have hfind := LabelTable.find?_matches h.labels name
    rw [hnew] at hfind
    refine ⟨?_, by rwa [h.atBoundary_eq]⟩
    cases hf : t'.labels.find? name with
    | none => rfl
    | some l =>
      rw [hf] at hfind
      cases hfind

/-- **Both tallies do the same with a piece** that stands behind the text in front. -/
theorem Beside.extend {p : Piece} (h : Beside w w' text front t t')
    (hs : Item.Spelling p.item p.text rest) (htext : text = front ++ (p.text ++ rest)) :
    Beside w w' text (front ++ p.text) (t.extend w p) (t'.extend w' p) := by
  obtain ⟨item, chars⟩ := p
  have hplace : ∀ lexeme : String, lexeme.toList = chars →
      Position.Beside w w' text lexeme t.pos t'.pos := by
    intro lexeme hlexeme
    rw [h.pos_eq, h.pos_eq']
    exact Position.beside_behind (by rw [hlexeme, List.append_assoc]; exact htext)
  refine ⟨?_, ?_, List.rel_append (forall₂_toList ?_) h.tokens,
    List.rel_append (forall₂_toList ?_) h.labels, ?_⟩
  · show t.pos.after w chars = _
    rw [h.pos_eq, Position.after_behind]
  · show t'.pos.after w' chars = _
    rw [h.pos_eq', Position.after_behind]
  · unfold Piece.token?
    cases item.word? with
    | none => exact .none
    | some word => exact .some ⟨rfl, rfl, hplace _ String.toList_ofList⟩
  · cases hs with
    | @definition name _ hname =>
      refine .some ⟨rfl, ?_, hplace _ String.toList_append⟩
      show (t'.byteCount : Int) = t.byteCount
      rw [h.byteCount_eq]
    | _ => exact .none
  · show t'.byteCount + item.size = t.byteCount + item.size
    rw [h.byteCount_eq]

/-- **The scans take the same steps.** -/
theorem Scans.beside {src : List Char} {t₁ : Tally} (h : Scans w t src t₁ rest)
    (hb : Beside w w' text front t t') (htext : text = front ++ src) :
    ∃ front₁ t₁', Scans w' t' src t₁' rest ∧ Beside w w' text front₁ t₁ t₁' ∧
      text = front₁ ++ rest := by
  induction h generalizing front t' with
  | refl => exact ⟨front, t', .refl, hb, htext⟩
  | @step t t₁ t₂ c cs rest r hr ha _ ih =>
    obtain ⟨hadmits, rfl⟩ := add_eq_ok_iff.1 ha
    rw [← Item.text_append_rest hr] at htext
    have hstep := hb.extend (p := ⟨r.item, r.text⟩) (Item.spelling_of_read hr) htext
    obtain ⟨front₁, t₁', hscans, hb₁, htext₁⟩ := ih hstep (by rw [List.append_assoc]; exact htext)
    exact ⟨front₁, t₁', .step hr (add_eq_ok_iff.2 ⟨hb.admits hadmits, rfl⟩) hscans, hb₁, htext₁⟩

/-- What the one tally does not take, the other does not take either, for the same error. -/
theorem Beside.addItem_error {p : Piece} {e : LexError} (h : Beside w w' text front t t')
    (he : t.addItem p = .error e) : t'.addItem p = .error e := by
  obtain ⟨item, chars⟩ := p
  cases item with
  | gap => cases he
  | token word =>
    simp only [addItem, h.byteCount_eq] at he ⊢
    split at he
    · next hlt =>
      cases he
      exact if_pos hlt
    · cases he
  | definition name =>
    have hfind := LabelTable.find?_matches h.labels name
    simp only [addItem, h.atBoundary_eq] at he ⊢
    generalize t.labels.find? name = found at hfind he
    generalize t'.labels.find? name = found' at hfind
    cases hfind with
    | some hl =>
      -- both report the line of the first definition
      rw [← he]
      simp only [hl.place.line_eq]
    | none =>
      simp only at he ⊢
      split at he
      · cases he
      · next hplace =>
        cases he
        exact if_neg hplace

/-- The streams of the two tallies at the end of the text match. -/
theorem Beside.finish (h : Beside w w' text text t t') :
    t.finish.Matches (Position.Beside w w' text) t'.finish := by
  have hend : (⟨.endOfInput, "", t.pos⟩ : Token).Matches (Position.Beside w w' text)
      ⟨.endOfInput, "", t'.pos⟩ := by
    refine ⟨rfl, rfl, ?_⟩
    have htext : text = text ++ "".toList ++ [] := by simp
    rw [h.pos_eq, h.pos_eq']
    exact Position.beside_behind htext
  exact ⟨List.rel_reverse (.cons hend h.tokens), List.rel_reverse h.labels, h.byteCount_eq⟩

end Tally

/-- **Two readings of a text with two tab widths match**, or end in the same error. -/
theorem TokenStream.ofText_matches (w w' : Nat) (text : List Char) :
    Results (ScanError.Matches (Position.Beside w w' text))
      (TokenStream.Matches (Position.Beside w w' text)) (TokenStream.ofText w text)
      (TokenStream.ofText w' text) := by
  obtain ⟨t, rest, hscans, hends⟩ := Tally.exists_end w {} text
  obtain ⟨front, t', hscans', hb, htext⟩ := hscans.beside (Tally.beside_empty w w' text) rfl
  rw [hscans.scan_eq] at hends
  rw [Tally.ofText_eq_scan, Tally.ofText_eq_scan, hscans.scan_eq, hscans'.scan_eq]
  generalize t.scan w rest = r at hends
  cases hends with
  | finished =>
    rw [Tally.scan_nil]
    obtain rfl : text = front := by simpa using htext
    exact .ok hb.finish
  | @refused c cs refusal hread =>
    rw [Tally.scan_of_read_error hread]
    cases refusal with
    | tooLong e => exact .error (.tooLong e)
    | error e skipped =>
      obtain ⟨src, hsrc⟩ := (Item.misspelling_of_read hread).skipped_isPrefix
      have hskipped : text = front ++ skipped ++ "".toList ++ src := by
        rw [htext, ← hsrc]
        simp
      simp only [Tally.refuse, hb.pos_eq, hb.pos_eq', Position.after_behind]
      exact .error (.lexical e (Position.beside_behind hskipped))
  | @misfit c cs r e hread ha =>
    have hplace : text = front ++ "".toList ++ c :: cs := by
      rw [htext]
      simp
    rw [Tally.scan_of_read hread, Tally.add, hb.addItem_error ha, hb.pos_eq, hb.pos_eq']
    exact .error (.lexical e (Position.beside_behind hplace))

/-- **The tab width moves columns only.**  For every text and any two tab widths, both readings of
the text succeed or both fail, and so do both assemblies.  Where they succeed, the tokens have the
same values, spellings and lines, the labels have the same order, names, addresses and lines, as many
bytes are counted, the statements are the same but for columns, and the images are the same.  Where
they fail, the errors are of the same kind, with the same message, hint and line.  And columns are
different only for parts of the text with a tab in front of them on their line. -/
theorem tab_width_moves_columns (tree : SignatureTree) (w w' : Nat) (text : List Char) :
    let R := Position.Beside w w' text
    Results (ScanError.Matches R) (TokenStream.Matches R)
      (TokenStream.ofText w text) (TokenStream.ofText w' text) ∧
    Results (AssemblyError.Matches R) (Assembly.Matches R)
      (assemble tree w text) (assemble tree w' text) ∧
    ∀ e e', assemble tree w text = .error (.source e) →
      assemble tree w' text = .error (.source e') →
      e'.diagnostic = { e.diagnostic with column := e'.diagnostic.column } := by
  intro R
  have hscan := TokenStream.ofText_matches w w' text
  have hassemble : Results (AssemblyError.Matches R) (Assembly.Matches R)
      (assemble tree w text) (assemble tree w' text) := assemble_matches hscan
  refine ⟨hscan, hassemble, fun e e' he he' => ?_⟩
  rw [he, he'] at hassemble
  cases hassemble with
  | error h => exact SourceError.diagnostic_eq (fun h => h.line_eq) h

/-- A branch to a label that is not defined, behind two tabs. -/
theorem tab_width_moves_columns_undefined : ∃ e e',
    assemble .standard 0 "\tB\tz".toList = .error (.source e) ∧
    assemble .standard 8 "\tB\tz".toList = .error (.source e') ∧
    e.diagnostic.column = some 2 ∧ e'.diagnostic.column = some 18 ∧
    e'.diagnostic = { e.diagnostic with column := some 18 } := by
  obtain ⟨e, he, hcolumn⟩ := exists_source_of_any
    (x := assemble .standard 0 "\tB\tz".toList)
    (p := fun e => decide (e.diagnostic.column = some 2)) (by decide +kernel)
  obtain ⟨e', he', hcolumn'⟩ := exists_source_of_any
    (x := assemble .standard 8 "\tB\tz".toList)
    (p := fun e => decide (e.diagnostic.column = some 18)) (by decide +kernel)
  have hcolumn := of_decide_eq_true hcolumn
  have hcolumn' := of_decide_eq_true hcolumn'
  obtain ⟨-, -, hreport⟩ := tab_width_moves_columns .standard 0 8 "\tB\tz".toList
  have hsame := hreport e e' he he'
  rw [hcolumn'] at hsame
  exact ⟨e, e', he, he', hcolumn, hcolumn', hsame⟩

end Asm256
