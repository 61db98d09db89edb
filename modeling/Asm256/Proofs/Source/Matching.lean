/-
Readings that match: the same words at other places.

Two tokens match when they say the same with the same spelling, and their places
are related; so do labels, statements and errors.  All that comes of tokens that
match matches again, since no stage behind the reading of a text looks at places:
* `Results` — results that are both successes or both failures, and what is known of them;
* `Statement.parse_matches` — the statements of tokens, or the error in them;
* `Image.encode_matches` — the image of statements, or the statement that has no encoding;
* `assemble_matches` — the assemblies of two texts, or the errors in them.
-/
import Asm256.Assembly
import Asm256.Proofs.Image.Layout

namespace Asm256

/-! ### Results in relation -/

/-- Two results: both are successes in relation, or failures in relation. -/
inductive Results {ε ε' α α' : Type} (E : ε → ε' → Prop) (V : α → α' → Prop) :
    Except ε α → Except ε' α' → Prop
  | ok {a : α} {b : α'} (h : V a b) : Results E V (.ok a) (.ok b)
  | error {e : ε} {e' : ε'} (h : E e e') : Results E V (.error e) (.error e')

namespace Results

variable {ε ε' δ δ' α α' β β' : Type} {E : ε → ε' → Prop} {D : δ → δ' → Prop} {V : α → α' → Prop}
  {U : β → β' → Prop} {x : Except ε α} {y : Except ε' α'}

theorem bind {f : α → Except ε β} {g : α' → Except ε' β'} (h : Results E V x y)
    (hf : ∀ a b, V a b → Results E U (f a) (g b)) : Results E U (x >>= f) (y >>= g) := by
  cases h with
  | ok h => exact hf _ _ h
  | error h => exact .error h

theorem mapError {f : ε → δ} {g : ε' → δ'} (h : Results E V x y)
    (hf : ∀ e e', E e e' → D (f e) (g e')) : Results D V (x.mapError f) (y.mapError g) := by
  cases h with
  | ok h => exact .ok h
  | error h => exact .error (hf _ _ h)

theorem map {f : α → β} {g : α' → β'} (h : Results E V x y) (hf : ∀ a b, V a b → U (f a) (g b)) :
    Results E U (x.map f) (y.map g) := by
  cases h with
  | ok h => exact .ok (hf _ _ h)
  | error h => exact .error h

theorem mapM {A : β → β' → Prop} {as : List β} {bs : List β'} {f : β → Except ε α}
    {g : β' → Except ε' α'} (h : List.Forall₂ A as bs)
    (hf : ∀ a b, A a b → Results E V (f a) (g b)) :
    Results E (List.Forall₂ V) (as.mapM f) (bs.mapM g) := by
  induction h with
  | nil => exact .ok .nil
  | cons hab _ ih =>
    rw [List.mapM_cons, List.mapM_cons]
    exact (hf _ _ hab).bind fun v v' hv => ih.bind fun vs vs' hvs => .ok (.cons hv hvs)

theorem foldlM {A : β → β' → Prop} {as : List β} {bs : List β'} {f : α → β → Except ε α}
    {g : α' → β' → Except ε' α'} (h : List.Forall₂ A as bs)
    (hf : ∀ s s' a b, V s s' → A a b → Results E V (f s a) (g s' b)) {s : α} {s' : α'}
    (hs : V s s') : Results E V (as.foldlM f s) (bs.foldlM g s') := by
  induction h generalizing s s' with
  | nil => exact .ok hs
  | cons hab _ ih =>
    rw [List.foldlM_cons, List.foldlM_cons]
    exact (hf _ _ _ _ hs hab).bind fun _ _ ht => ih ht

end Results

theorem forall₂_toList {α β : Type} {A : α → β → Prop} {a : Option α} {b : Option β}
    (h : Option.Rel A a b) : List.Forall₂ A a.toList b.toList := by
  cases h with
  | some h => exact .cons h .nil
  | none => exact .nil

/-! ### Words that match -/

section Matches

variable (R : String → Position → Position → Prop)

/-- The same value with the same spelling, at places in relation. -/
structure Spelled.Matches {α : Type} (a b : Spelled α) : Prop where
  value_eq : b.value = a.value
  lexeme_eq : b.lexeme = a.lexeme
  place : R a.lexeme a.pos b.pos

/-- The same name for the same address, defined at places in relation. -/
structure Label.Matches (a b : Label) : Prop where
  name_eq : b.name = a.name
  address_eq : b.address = a.address
  place : R (a.name ++ ":") a.pos b.pos

/-- A mnemonic and operands that match. -/
structure Statement.Matches (s s' : Statement) : Prop where
  mnemonic : s.mnemonic.Matches R s'.mnemonic
  operands : List.Forall₂ (Spelled.Matches R) s.operands s'.operands

/-- Streams with tokens and labels that match, and as many bytes of code. -/
structure TokenStream.Matches (s s' : TokenStream) : Prop where
  tokens : List.Forall₂ (Spelled.Matches R) s.tokens s'.tokens
  labels : List.Forall₂ (Label.Matches R) s.labels s'.labels
  byteCount_eq : s'.byteCount = s.byteCount

/-- Assemblies with the same image, and labels and statements that match. -/
structure Assembly.Matches (a a' : Assembly) : Prop where
  image_eq : a'.image = a.image
  labels : List.Forall₂ (Label.Matches R) a.labels a'.labels
  statements : List.Forall₂ (Statement.Matches R) a.statements a'.statements

/-- The same expectation, and tokens that match. -/
inductive ParseError.Matches : ParseError → ParseError → Prop
  | expectedMnemonic {t t' : Option Token} (h : Option.Rel (Spelled.Matches R) t t') :
      Matches (.expectedMnemonic t) (.expectedMnemonic t')
  | expectedOperand {t t' : Option Token} (h : Option.Rel (Spelled.Matches R) t t') :
      Matches (.expectedOperand t) (.expectedOperand t')
  | expectedOneOf {t t' : Option Token} (candidates : List TokenClass)
      (h : Option.Rel (Spelled.Matches R) t t') :
      Matches (.expectedOneOf candidates t) (.expectedOneOf candidates t')

/-- Labels that match and are not defined, or the same operands behind mnemonics that match. -/
inductive StatementError.Matches : StatementError → StatementError → Prop
  | undefinedLabel {t t' : Token} (h : t.Matches R t') :
      Matches (.undefinedLabel t) (.undefinedLabel t')
  | invalidSignature {m m' : Spelled Mnemonic} (received : List OperandKind) (valid : List Form)
      (h : m.Matches R m') :
      Matches (.invalidSignature m.pos m.value received valid)
        (.invalidSignature m'.pos m'.value received valid)

/-- Errors of statements that match, or full memories. -/
inductive EncodeError.Matches : EncodeError → EncodeError → Prop
  | statement {e e' : StatementError} (h : e.Matches R e') : Matches (.statement e) (.statement e')
  | full : Matches .full .full

/-- The same error in reading a text. -/
inductive ScanError.Matches : ScanError → ScanError → Prop
  | lexical (e : LexError) {lexeme : String} {p p' : Position} (h : R lexeme p p') :
      Matches (.lexical e p) (.lexical e p')
  | tooLong (e : Decimal.TooLong) : Matches (.tooLong e) (.tooLong e)

/-- Errors of the same kind that match. -/
inductive AssemblyError.Matches : AssemblyError → AssemblyError → Prop
  | lexical (e : LexError) {lexeme : String} {p p' : Position} (h : R lexeme p p') :
      Matches (.source (.lexical e p)) (.source (.lexical e p'))
  | parse {e e' : ParseError} (h : e.Matches R e') :
      Matches (.source (.parse e)) (.source (.parse e'))
  | statement {e e' : StatementError} (h : e.Matches R e') :
      Matches (.source (.statement e)) (.source (.statement e'))
  | tooLong (e : Decimal.TooLong) : Matches (.tooLong e) (.tooLong e)
  | internal (e : InternalError) : Matches (.internal e) (.internal e)

end Matches

variable {R : String → Position → Position → Prop}

/-! ### Statements of tokens that match -/

namespace Statement

/-- The reader stands at the same place in statements that match. -/
inductive Place.Matches (R : String → Position → Position → Prop) : Place → Place → Prop
  | between : Matches R .between .between
  | afterMnemonic {s s' : Statement} (h : s.Matches R s') :
      Matches R (.afterMnemonic s) (.afterMnemonic s')
  | afterOperand {s s' : Statement} (h : s.Matches R s') :
      Matches R (.afterOperand s) (.afterOperand s')
  | afterComma {s s' : Statement} (h : s.Matches R s') : Matches R (.afterComma s) (.afterComma s')

theorem Matches.push {s s' : Statement} {o o' : Spelled Operand} (h : s.Matches R s')
    (ho : o.Matches R o') : (s.push o).Matches R (s'.push o') :=
  ⟨h.mnemonic, List.rel_append h.operands (.cons ho .nil)⟩

/-- Done with statements that match, and at the same place. -/
def StepMatches (R : String → Position → Position → Prop) (r r' : Option Statement × Place) : Prop :=
  Option.Rel (Statement.Matches R) r.1 r'.1 ∧ r.2.Matches R r'.2

/-- Tokens that match do the same to readers at the same place. -/
theorem Place.Matches.step {place place' : Place} {t t' : Token} (h : place.Matches R place')
    (ht : t.Matches R t') :
    Results (ParseError.Matches R) (StepMatches R) (place.step t) (place'.step t') := by
  have hgot : Option.Rel (Spelled.Matches R) (some t) (some t') := .some ht
  obtain ⟨_, _, pos⟩ := t
  obtain ⟨value, lexeme, pos'⟩ := t'
  obtain ⟨rfl, rfl, hplace⟩ := ht
  cases h with
  | between =>
    cases value with
    | mnemonic m => exact .ok ⟨.none, .afterMnemonic ⟨⟨rfl, rfl, hplace⟩, .nil⟩⟩
    | newline | semicolon | labelDefinition | endOfInput => exact .ok ⟨.none, .between⟩
    | operand o | comma => exact .error (.expectedMnemonic hgot)
  | afterMnemonic h =>
    cases value with
    | operand o => exact .ok ⟨.none, .afterOperand (h.push ⟨rfl, rfl, hplace⟩)⟩
    | newline | semicolon | endOfInput => exact .ok ⟨.some h, .between⟩
    | comma => exact .error (.expectedOperand hgot)
    | mnemonic m | labelDefinition => exact .error (.expectedOneOf _ hgot)
  | afterOperand h =>
    cases value with
    | comma => exact .ok ⟨.none, .afterComma h⟩
    | newline | semicolon | endOfInput => exact .ok ⟨.some h, .between⟩
    | operand o | mnemonic m | labelDefinition => exact .error (.expectedOneOf _ hgot)
  | afterComma h =>
    cases value with
    | operand o => exact .ok ⟨.none, .afterOperand (h.push ⟨rfl, rfl, hplace⟩)⟩
    | _ => exact .error (.expectedOperand hgot)

/-- **The statements of tokens that match are those that match**, or the tokens have errors that
match. -/
theorem parseFrom_matches {place place' : Place} {ts ts' : List Token}
    (h : place.Matches R place') (hts : List.Forall₂ (Spelled.Matches R) ts ts') :
    Results (ParseError.Matches R) (List.Forall₂ (Statement.Matches R)) (parseFrom place ts)
      (parseFrom place' ts') := by
  induction hts generalizing place place' with
  | nil =>
    cases h with
    | between => exact .ok .nil
    | afterMnemonic h | afterOperand h => exact .error (.expectedOneOf _ .none)
    | afterComma h => exact .error (.expectedOperand .none)
  | @cons t t' ts ts' ht _ ih =>
    have hstep := h.step ht
    rw [parseFrom, parseFrom]
    generalize place.step t = r at hstep
    generalize place'.step t' = r' at hstep
    cases hstep with
    | error he => exact .error he
    | @ok step step' hmatch =>
      obtain ⟨done, next⟩ := step
      obtain ⟨done', next'⟩ := step'
      obtain ⟨hdone, hnext⟩ := hmatch
      by_cases hend : t.value = .endOfInput
      · have hend' : t'.value = .endOfInput := ht.value_eq.trans hend
        simp only [if_pos hend, if_pos hend']
        exact .ok (forall₂_toList hdone)
      · have hend' : ¬ t'.value = .endOfInput := by
          rw [ht.value_eq]
          exact hend
        simp only [if_neg hend, if_neg hend']
        have hrest := ih hnext
        generalize parseFrom next ts = rest at hrest
        generalize parseFrom next' ts' = rest' at hrest
        cases hrest with
        | error he => exact .error he
        | ok hmore => exact .ok (List.rel_append (forall₂_toList hdone) hmore)

theorem parse_matches {ts ts' : List Token} (h : List.Forall₂ (Spelled.Matches R) ts ts') :
    Results (ParseError.Matches R) (List.Forall₂ (Statement.Matches R)) (parse ts) (parse ts') :=
  parseFrom_matches .between h

/-- Statements that match have the same kinds of operands. -/
theorem Matches.kinds_eq {s s' : Statement} (h : s.Matches R s') : s'.kinds = s.kinds := by
  obtain ⟨-, hoperands⟩ := h
  unfold kinds
  generalize s.operands = os at hoperands
  generalize s'.operands = os' at hoperands
  induction hoperands with
  | nil => rfl
  | cons ho _ ih => rw [List.map_cons, List.map_cons, ih, ho.value_eq]

end Statement

/-! ### The image of statements that match -/

/-- In tables of labels that match, the labels of a name match. -/
theorem LabelTable.find?_matches {labels labels' : LabelTable}
    (h : List.Forall₂ (Label.Matches R) labels labels') (name : String) :
    Option.Rel (Label.Matches R) (labels.find? name) (labels'.find? name) := by
  induction h with
  | nil => exact .none
  | @cons l l' labels labels' hl _ ih =>
    unfold LabelTable.find?
    rw [List.find?_cons, List.find?_cons, hl.name_eq]
    cases l.name == name with
    | true => exact .some hl
    | false => exact ih

variable {tree : SignatureTree} {labels labels' : LabelTable}

theorem Operand.encode_matches {o o' : Spelled Operand}
    (hl : List.Forall₂ (Label.Matches R) labels labels') (h : o.Matches R o') :
    Results (StatementError.Matches R) Eq (encode labels o) (encode labels' o') := by
  have hvalue := h.value_eq
  cases hv : o.value with
  | register n | memory n | literal n =>
    rw [hv] at hvalue
    simp only [encode, hv, hvalue]
    exact .ok rfl
  | label name =>
    rw [hv] at hvalue
    have hfind := LabelTable.find?_matches hl name
    cases hf : labels.find? name with
    | none =>
      rw [hf] at hfind
      generalize hf' : labels'.find? name = found' at hfind
      cases hfind
      rw [encode_undefined hv hf, encode_undefined hvalue hf']
      exact .error (.undefinedLabel ⟨congrArg Word.operand h.value_eq, h.lexeme_eq, h.place⟩)
    | some l =>
      rw [hf] at hfind
      generalize hf' : labels'.find? name = found' at hfind
      cases hfind with
      | some hl =>
        rw [encode_of_label hv hf, encode_of_label hvalue hf']
        exact .ok hl.address_eq.symm

/-- Statements that match have the same numbers, or errors that match. -/
theorem Statement.encode_matches {s s' : Statement}
    (hl : List.Forall₂ (Label.Matches R) labels labels') (h : s.Matches R s') :
    Results (StatementError.Matches R) Eq (s.encode tree labels) (s'.encode tree labels') := by
  have hoperands : Results (StatementError.Matches R) (List.Forall₂ Eq)
      (s.operands.mapM (Operand.encode labels)) (s'.operands.mapM (Operand.encode labels')) :=
    .mapM h.operands fun o o' ho => Operand.encode_matches hl ho
  simp only [encode, h.kinds_eq, h.mnemonic.value_eq]
  cases tree.find? s.mnemonic.value s.kinds with
  | none =>
    have herror := StatementError.Matches.invalidSignature (R := R) s.kinds
      (tree.forms s.mnemonic.value) h.mnemonic
    rw [h.mnemonic.value_eq] at herror
    exact .error herror
  | some op =>
    generalize s.operands.mapM (Operand.encode labels) = r at hoperands
    generalize s'.operands.mapM (Operand.encode labels') = r' at hoperands
    cases hoperands with
    | error he => exact .error he
    | ok hvalues =>
      rw [List.forall₂_eq_eq_eq] at hvalues
      rw [hvalues]
      exact .ok rfl

theorem Writer.writeStatement_matches {s s' : Statement} (w : Writer)
    (hl : List.Forall₂ (Label.Matches R) labels labels') (h : s.Matches R s') :
    Results (EncodeError.Matches R) Eq (w.writeStatement tree labels s)
      (w.writeStatement tree labels' s') := by
  have hvalues : Results (StatementError.Matches R) Eq (s.encode tree labels)
      (s'.encode tree labels') := Statement.encode_matches hl h
  unfold Writer.writeStatement
  generalize s.encode tree labels = r at hvalues
  generalize s'.encode tree labels' = r' at hvalues
  cases hvalues with
  | error he => exact .error (.statement he)
  | @ok values values' heq =>
    subst heq
    simp only
    cases w.writeAll values with
    | none => exact .error .full
    | some w' => exact .ok rfl

/-- **Statements that match have the same image**, or errors that match. -/
theorem Image.encode_matches {ss ss' : List Statement}
    (hl : List.Forall₂ (Label.Matches R) labels labels')
    (h : List.Forall₂ (Statement.Matches R) ss ss') :
    Results (EncodeError.Matches R) Eq (Image.encode tree labels ss)
      (Image.encode tree labels' ss') := by
  have hwriter : Results (EncodeError.Matches R) Eq
      (ss.foldlM (Writer.writeStatement tree labels) .empty)
      (ss'.foldlM (Writer.writeStatement tree labels') .empty) := by
    refine .foldlM h (fun w w' s s' hw hs => ?_) rfl
    rw [← hw]
    exact Writer.writeStatement_matches w hl hs
  exact hwriter.map fun w w' hw => congrArg Writer.image hw

/-! ### Assemblies of texts that match -/

/-- **Texts with streams that match have assemblies that match**, or errors that match. -/
theorem assemble_matches {w w' : Nat} {text text' : List Char}
    (h : Results (ScanError.Matches R) (TokenStream.Matches R) (TokenStream.ofText w text)
      (TokenStream.ofText w' text')) :
    Results (AssemblyError.Matches R) (Assembly.Matches R) (assemble tree w text)
      (assemble tree w' text') := by
  unfold assemble scanText parseTokens encodeStatements
  refine Results.bind (h.mapError fun e e' he => ?_) fun s s' hs => ?_
  · cases he with
    | lexical e h => exact .lexical e h
    | tooLong e => exact .tooLong e
  refine Results.bind ((Statement.parse_matches hs.tokens).mapError fun e e' he => .parse he)
    fun ss ss' hss => ?_
  refine Results.bind ((Image.encode_matches hs.labels hss).mapError fun e e' he => ?_)
    fun i i' hi => ?_
  · cases he with
    | statement h => exact .statement h
    | full => exact .internal _
  subst hi
  rw [hs.byteCount_eq]
  by_cases hsize : i.codeSize = s.byteCount
  · rw [if_neg (not_not_intro hsize), if_neg (not_not_intro hsize)]
    exact .ok ⟨rfl, hs.labels, hss⟩
  · rw [if_pos hsize, if_pos hsize]
    exact .error (.internal _)

/-! ### Reports on errors that match -/

/-- Messages show the same of tokens that match. -/
theorem Spelled.Matches.shown_eq {t t' : Token} (h : t.Matches R t') : t'.shown = t.shown := by
  unfold Token.shown
  rw [h.value_eq, h.lexeme_eq]

theorem Token.shownOrEnd_eq {t t' : Option Token} (h : Option.Rel (Spelled.Matches R) t t') :
    shownOrEnd t' = shownOrEnd t := by
  cases h with
  | some h =>
    show Token.shown _ = Token.shown _
    exact h.shown_eq
  | none => rfl

theorem Diagnostic.located_eq {d : Diagnostic} {p p' : Position} (h : p'.line = p.line) :
    d.located p' = { d.located p with column := (d.located p').column } := by
  unfold located
  rw [h]

namespace ParseError.Matches

variable {e e' : ParseError}

theorem got (h : e.Matches R e') : Option.Rel (Spelled.Matches R) e.got e'.got := by
  cases h <;> assumption

theorem message_eq (h : e.Matches R e') : e'.message = e.message := by
  have hexpectation : e'.expectation = e.expectation := by
    cases h <;> rfl
  rw [message, message, hexpectation, Token.shownOrEnd_eq h.got]

end ParseError.Matches

theorem StatementError.Matches.message_eq {e e' : StatementError} (h : e.Matches R e') :
    e'.message = e.message := by
  cases h with
  | undefinedLabel h =>
    unfold message
    dsimp only
    rw [h.shown_eq]
  | invalidSignature received valid h =>
    unfold message
    dsimp only
    rw [h.value_eq]

section Reports

variable (hline : ∀ {lexeme p p'}, R lexeme p p' → p'.line = p.line)

include hline

theorem ParseError.Matches.diagnostic_eq {e e' : ParseError} (h : e.Matches R e') :
    e'.diagnostic = { e.diagnostic with column := e'.diagnostic.column } := by
  have hgot := h.got
  unfold diagnostic
  rw [h.message_eq]
  generalize e.message = m
  generalize e.got = t at hgot
  generalize e'.got = t' at hgot
  cases hgot with
  | some ht => exact Diagnostic.located_eq (hline ht.place)
  | none => rfl

theorem StatementError.Matches.diagnostic_eq {e e' : StatementError} (h : e.Matches R e') :
    e'.diagnostic = { e.diagnostic with column := e'.diagnostic.column } := by
  have hpos : e'.pos.line = e.pos.line := by
    cases h with
    | undefinedLabel h | invalidSignature received valid h => exact hline h.place
  unfold diagnostic
  rw [h.message_eq]
  generalize e.message = m
  exact Diagnostic.located_eq hpos

/-- **Reports on errors that match differ in columns only**, if places in relation are in one line. -/
theorem SourceError.diagnostic_eq {e e' : SourceError}
    (h : AssemblyError.Matches R (.source e) (.source e')) :
    e'.diagnostic = { e.diagnostic with column := e'.diagnostic.column } := by
  cases h with
  | lexical e h => exact Diagnostic.located_eq (hline h)
  | parse h | statement h => exact h.diagnostic_eq hline

end Reports

end Asm256
