/-
The grammar of token sequences.

`Statement.Sequence ts ss` derives the statements `ss` from the tokens `ts`:
line feeds, semicolons and label definitions between statements are skipped, a
statement is spelled by a mnemonic and by operands with commas between them and
closed by a delimiter, and the end of the input closes the last statement and
the sequence.

* `Statement.parse_eq_ok_iff` — parsing finds exactly the statements that the grammar derives;
* `Statement.Sequence.split` — a label definition parts the statements in front of it from
  those behind it;
* `Statement.Sequence.totalSize_read` — the statements have the size of the tokens they stand for.
-/
import Asm256.Proofs.Source.Pieces
import Asm256.Source.Statement

namespace Asm256

/-- The mnemonic of a statement as a token. -/
def Statement.head (s : Statement) : Token :=
  ⟨.mnemonic s.mnemonic.value, s.mnemonic.lexeme, s.mnemonic.pos⟩

namespace Statement

/-- The tokens of the operands behind the first one: each has a comma in front. -/
inductive FurtherOperands : List (Spelled Operand) → List Token → Prop
  | nil : FurtherOperands [] []
  | cons {c : Token} {o : Spelled Operand} {os : List (Spelled Operand)} {ts : List Token}
      (hc : c.value = .comma) (hos : FurtherOperands os ts) :
      FurtherOperands (o :: os) (c :: o.toToken :: ts)

/-- The tokens of a statement, without the one that closes it. -/
inductive Tokens : Statement → List Token → Prop
  | bare (m : Spelled Mnemonic) : Tokens ⟨m, []⟩ [head ⟨m, []⟩]
  | operands (m : Spelled Mnemonic) (o : Spelled Operand) {os : List (Spelled Operand)}
      {ts : List Token} (hos : FurtherOperands os ts) :
      Tokens ⟨m, o :: os⟩ (head ⟨m, o :: os⟩ :: o.toToken :: ts)

/-- The token means nothing between statements. -/
def Skipped (t : Token) : Prop := t.value.isDelimiter ∨ t.value = .labelDefinition

/-- Tokens that are a sequence of statements.  Nothing is read behind the end of the input. -/
inductive Sequence : List Token → List Statement → Prop
  | nil : Sequence [] []
  | done {t : Token} {ts : List Token} (ht : t.value = .endOfInput) : Sequence (t :: ts) []
  | skip {t : Token} {ts : List Token} {ss : List Statement} (ht : Skipped t)
      (h : Sequence ts ss) : Sequence (t :: ts) ss
  | statement {s : Statement} {us : List Token} {t : Token} {ts : List Token}
      {ss : List Statement} (hs : Tokens s us) (ht : t.value.isDelimiter) (h : Sequence ts ss) :
      Sequence (us ++ t :: ts) (s :: ss)
  | last {s : Statement} {us : List Token} {t : Token} {ts : List Token} (hs : Tokens s us)
      (ht : t.value = .endOfInput) : Sequence (us ++ t :: ts) [s]

/-! ### Derived sequences are parsed -/

theorem isDelimiter_iff {word : Word} :
    word.isDelimiter ↔ word = .newline ∨ word = .semicolon := by
  cases word <;> simp [Word.isDelimiter]

variable {s : Statement} {us ts : List Token} {ss : List Statement} {t : Token}

/-- A reader of tokens that moves on from a place to another one without a statement. -/
theorem parseFrom_cons_of_step {place next : Place} (h : place.step t = .ok (none, next))
    (ht : t.value ≠ .endOfInput) : parseFrom place (t :: ts) = parseFrom next ts := by
  rw [parseFrom, h]
  simp only [if_neg ht, Option.toList_none, List.nil_append]
  cases parseFrom next ts <;> rfl

theorem step_comma (ht : t.value = .comma) :
    (Place.afterOperand s).step t = .ok (none, .afterComma s) := by
  simp [Place.step, ht]

theorem step_operand (o : Spelled Operand) :
    (Place.afterComma s).step o.toToken = .ok (none, .afterOperand (s.push o)) := rfl

theorem step_firstOperand (o : Spelled Operand) :
    (Place.afterMnemonic s).step o.toToken = .ok (none, .afterOperand (s.push o)) := rfl

theorem step_head (s : Statement) :
    Place.between.step s.head = .ok (none, .afterMnemonic ⟨s.mnemonic, []⟩) := rfl

theorem parseFrom_furtherOperands {os : List (Spelled Operand)} (h : FurtherOperands os us) :
    parseFrom (.afterOperand s) (us ++ ts)
      = parseFrom (.afterOperand { s with operands := s.operands ++ os }) ts := by
  induction h generalizing s with
  | nil => simp
  | @cons c o os us hc hos ih =>
    rw [List.cons_append, List.cons_append,
      parseFrom_cons_of_step (step_comma hc) (by simp [hc]),
      parseFrom_cons_of_step (step_operand o) (by simp [Spelled.toToken]), ih]
    simp [push]

/-- A closed statement is found, with the statements behind it. -/
theorem parseFrom_delimiter {place : Place} (hp : place = .afterMnemonic s ∨ place = .afterOperand s)
    (ht : t.value.isDelimiter) (h : parseFrom .between ts = .ok ss) :
    parseFrom place (t :: ts) = .ok (s :: ss) := by
  rw [isDelimiter_iff] at ht
  rcases hp with rfl | rfl <;> rcases ht with ht | ht <;>
    simp [parseFrom, Place.step, ht, h]

theorem parseFrom_endOfInput {place : Place}
    (hp : place = .afterMnemonic s ∨ place = .afterOperand s) (ht : t.value = .endOfInput) :
    parseFrom place (t :: ts) = .ok [s] := by
  rcases hp with rfl | rfl <;> simp [parseFrom, Place.step, ht]

/-- The tokens of a statement take a reader to its end. -/
theorem Tokens.parseFrom (h : Tokens s us) :
    ∃ place, (place = .afterMnemonic s ∨ place = .afterOperand s) ∧
      ∀ ts, Statement.parseFrom .between (us ++ ts) = Statement.parseFrom place ts := by
  cases h with
  | bare m =>
    refine ⟨.afterMnemonic ⟨m, []⟩, .inl rfl, fun ts => ?_⟩
    exact parseFrom_cons_of_step (step_head _) (by simp [head])
  | @operands m o os us hos =>
    refine ⟨.afterOperand ⟨m, o :: os⟩, .inr rfl, fun ts => ?_⟩
    rw [List.cons_append, List.cons_append,
      parseFrom_cons_of_step (step_head _) (by simp [head]),
      parseFrom_cons_of_step (step_firstOperand o) (by simp [Spelled.toToken]),
      parseFrom_furtherOperands hos]
    rfl

theorem Sequence.parse_eq (h : Sequence ts ss) : parse ts = .ok ss := by
  induction h with
  | nil => rfl
  | done ht => simp [parse, Statement.parseFrom, Place.step, ht]
  | skip ht _ ih =>
    rw [Skipped, isDelimiter_iff] at ht
    rw [← ih]
    rcases ht with (ht | ht) | ht <;>
      exact parseFrom_cons_of_step (by simp [Place.step, ht]) (by simp [ht])
  | statement hs ht _ ih =>
    obtain ⟨place, hp, heq⟩ := hs.parseFrom
    rw [parse, heq]
    exact parseFrom_delimiter hp ht ih
  | last hs ht =>
    obtain ⟨place, hp, heq⟩ := hs.parseFrom
    rw [parse, heq]
    exact parseFrom_endOfInput hp ht

/-! ### Parsed sequences are derived -/

/-- The statement `s` is closed by the first token, with statements behind it. -/
inductive Closed (s : Statement) : List Token → List Statement → Prop
  | delimiter {t : Token} {ts : List Token} {ss : List Statement} (ht : t.value.isDelimiter)
      (h : Sequence ts ss) : Closed s (t :: ts) (s :: ss)
  | endOfInput {t : Token} {ts : List Token} (ht : t.value = .endOfInput) : Closed s (t :: ts) [s]

/-- The statement `s`, which has an operand, goes on with further operands and is closed. -/
def Continued (s : Statement) (ts : List Token) (ss : List Statement) : Prop :=
  ∃ os us rest, FurtherOperands os us ∧ ts = us ++ rest ∧
    Closed { s with operands := s.operands ++ os } rest ss

/-- What a reader at a place has in front of it. -/
def Place.Ahead : Place → List Token → List Statement → Prop
  | .between, ts, ss => Sequence ts ss
  | .afterMnemonic s, ts, ss =>
      Closed s ts ss ∨ ∃ o rest, ts = o.toToken :: rest ∧ Continued (s.push o) rest ss
  | .afterOperand s, ts, ss => Continued s ts ss
  | .afterComma s, ts, ss => ∃ o rest, ts = o.toToken :: rest ∧ Continued (s.push o) rest ss

theorem Closed.continued (h : Closed s ts ss) : Continued s ts ss :=
  ⟨[], [], ts, .nil, rfl, by simpa using h⟩

theorem Continued.comma {o : Spelled Operand} {c : Token} (hc : c.value = .comma)
    (h : Continued (s.push o) ts ss) : Continued s (c :: o.toToken :: ts) ss := by
  obtain ⟨os, us, rest, hos, rfl, hcl⟩ := h
  refine ⟨o :: os, c :: o.toToken :: us, rest, .cons hc hos, rfl, ?_⟩
  simpa [push] using hcl

theorem Closed.sequence (hs : Tokens s us) (h : Closed s ts ss) : Sequence (us ++ ts) ss := by
  cases h with
  | delimiter ht h => exact .statement hs ht h
  | endOfInput ht => exact .last hs ht

/-- What is ahead of a mnemonic makes a sequence with it. -/
theorem sequence_of_ahead {m : Spelled Mnemonic}
    (h : (Place.afterMnemonic ⟨m, []⟩).Ahead ts ss) : Sequence (head ⟨m, []⟩ :: ts) ss := by
  rcases h with h | ⟨o, rest, rfl, os, us, rest, hos, rfl, hc⟩
  · exact h.sequence (.bare m)
  · exact hc.sequence (.operands m o hos)

theorem closed_of_delimiter {place : Place} (ht : t.value.isDelimiter)
    (hp : place = .afterMnemonic s ∨ place = .afterOperand s)
    (ih : ∀ {place ss}, parseFrom place ts = .ok ss → place.Ahead ts ss)
    (h : parseFrom place (t :: ts) = .ok ss) : Closed s (t :: ts) ss := by
  cases hr : parseFrom .between ts with
  | error e =>
    rw [isDelimiter_iff] at ht
    rcases hp with rfl | rfl <;> rcases ht with ht | ht <;>
      simp [parseFrom, Place.step, ht, hr] at h
  | ok more =>
    rw [parseFrom_delimiter hp ht hr] at h
    cases h
    exact .delimiter ht (ih hr)

theorem closed_of_endOfInput {place : Place} (ht : t.value = .endOfInput)
    (hp : place = .afterMnemonic s ∨ place = .afterOperand s)
    (h : parseFrom place (t :: ts) = .ok ss) : Closed s (t :: ts) ss := by
  rw [parseFrom_endOfInput hp ht] at h
  cases h
  exact .endOfInput ht

/-- The statements that are found are ahead. -/
theorem ahead_of_parseFrom {place : Place} (h : parseFrom place ts = .ok ss) :
    place.Ahead ts ss := by
  -- each token moves the reader from one place to another, so this is for all places at once
  induction ts generalizing place ss with
  | nil =>
    cases place with
    | between =>
      cases h
      exact .nil
    | _ => cases h
  | cons t ts ih =>
    obtain ⟨value, lexeme, pos⟩ := t
    -- a token that does not fit is an error, so it has nothing to show
    cases place with
    | between =>
      cases value with
      | mnemonic m =>
        rw [parseFrom_cons_of_step rfl (by simp)] at h
        exact sequence_of_ahead (ih h)
      | newline | semicolon =>
        rw [parseFrom_cons_of_step rfl (by simp)] at h
        exact .skip (.inl rfl) (ih h)
      | labelDefinition =>
        rw [parseFrom_cons_of_step rfl (by simp)] at h
        exact .skip (.inr rfl) (ih h)
      | endOfInput =>
        obtain rfl : [] = ss := by simpa [parseFrom, Place.step] using h
        exact .done rfl
      | operand o | comma => simp [parseFrom, Place.step] at h
    | afterMnemonic s =>
      cases value with
      | operand o =>
        rw [parseFrom_cons_of_step rfl (by simp)] at h
        exact .inr ⟨⟨o, lexeme, pos⟩, ts, rfl, ih h⟩
      | newline | semicolon => exact .inl (closed_of_delimiter rfl (.inl rfl) ih h)
      | endOfInput => exact .inl (closed_of_endOfInput rfl (.inl rfl) h)
      | mnemonic m | comma | labelDefinition => simp [parseFrom, Place.step] at h
    | afterOperand s =>
      cases value with
      | comma =>
        rw [parseFrom_cons_of_step rfl (by simp)] at h
        obtain ⟨o, rest, rfl, hc⟩ := ih h
        exact hc.comma rfl
      | newline | semicolon => exact (closed_of_delimiter rfl (.inr rfl) ih h).continued
      | endOfInput => exact (closed_of_endOfInput rfl (.inr rfl) h).continued
      | mnemonic m | operand o | labelDefinition => simp [parseFrom, Place.step] at h
    | afterComma s =>
      cases value with
      | operand o =>
        rw [parseFrom_cons_of_step rfl (by simp)] at h
        exact ⟨⟨o, lexeme, pos⟩, ts, rfl, ih h⟩
      | _ => simp [parseFrom, Place.step] at h

/-- **Parsing finds exactly the statements that the grammar derives.** -/
theorem parse_eq_ok_iff : parse ts = .ok ss ↔ Sequence ts ss :=
  ⟨ahead_of_parseFrom, Sequence.parse_eq⟩

/-! ### Statements and the tokens they stand for -/

/-- The tokens that are read: those in front of the end of the input. -/
def readTokens (ts : List Token) : List Token := ts.takeWhile fun t => t.value != .endOfInput

theorem readTokens_append (h : ∀ u ∈ us, u.value ≠ .endOfInput) :
    readTokens (us ++ ts) = us ++ readTokens ts :=
  List.takeWhile_append_of_pos (by simpa using h)

theorem readTokens_eq_self (h : ∀ u ∈ us, u.value ≠ .endOfInput) : readTokens us = us := by
  simpa [readTokens] using @readTokens_append us [] h

theorem FurtherOperands.value_of_mem {os : List (Spelled Operand)} (h : FurtherOperands os us) :
    ∀ u ∈ us, u.value = .comma ∨ ∃ o, u.value = .operand o := by
  induction h with
  | nil => simp
  | @cons c o os us hc _ ih =>
    intro u hu
    rcases List.mem_cons.1 hu with rfl | hu
    · exact .inl hc
    · rcases List.mem_cons.1 hu with rfl | hu
      · exact .inr ⟨o.value, rfl⟩
      · exact ih u hu

/-- A statement is spelled by mnemonics, operands and commas only. -/
theorem Tokens.value_of_mem (h : Tokens s us) :
    ∀ u ∈ us, u.value = .comma ∨ (∃ o, u.value = .operand o) ∨ ∃ m, u.value = .mnemonic m := by
  intro u hu
  cases h with
  | bare m =>
    obtain rfl := List.mem_singleton.1 hu
    exact .inr (.inr ⟨m.value, rfl⟩)
  | operands m o hos =>
    rcases List.mem_cons.1 hu with rfl | hu
    · exact .inr (.inr ⟨m.value, rfl⟩)
    · rcases List.mem_cons.1 hu with rfl | hu
      · exact .inr (.inl ⟨o.value, rfl⟩)
      · rcases hos.value_of_mem u hu with hc | ho
        · exact .inl hc
        · exact .inr (.inl ho)

theorem Tokens.ne_endOfInput (h : Tokens s us) : ∀ u ∈ us, u.value ≠ .endOfInput := by
  intro u hu
  rcases h.value_of_mem u hu with h | ⟨o, h⟩ | ⟨m, h⟩ <;> simp [h]

theorem Tokens.ne_labelDefinition (h : Tokens s us) : ∀ u ∈ us, u.value ≠ .labelDefinition := by
  intro u hu
  rcases h.value_of_mem u hu with h | ⟨o, h⟩ | ⟨m, h⟩ <;> simp [h]

theorem FurtherOperands.totalSize {os : List (Spelled Operand)} (h : FurtherOperands os us) :
    Token.totalSize us = os.length := by
  induction h with
  | nil => rfl
  | cons hc _ ih =>
    rw [Token.totalSize_cons, Token.totalSize_cons, ih, hc]
    simp [Word.size, Spelled.toToken]
    omega

theorem Tokens.totalSize (h : Tokens s us) : Token.totalSize us = s.size := by
  cases h with
  | bare m => rfl
  | operands m o hos =>
    rw [Token.totalSize_cons, Token.totalSize_cons, hos.totalSize]
    simp [Word.size, Spelled.toToken, head, size]
    omega

theorem size_of_isDelimiter {word : Word} (h : word.isDelimiter) : word.size = 0 := by
  rcases isDelimiter_iff.1 h with rfl | rfl <;> rfl

theorem ne_endOfInput_of_isDelimiter (ht : t.value.isDelimiter) : t.value ≠ .endOfInput := by
  rcases isDelimiter_iff.1 ht with ht | ht <;> simp [ht]

theorem Skipped.ne_endOfInput (ht : Skipped t) : t.value ≠ .endOfInput := by
  rcases ht with ht | ht
  · exact ne_endOfInput_of_isDelimiter ht
  · simp [ht]

theorem Skipped.size (ht : Skipped t) : t.value.size = 0 := by
  rcases ht with ht | ht
  · exact size_of_isDelimiter ht
  · simp [ht, Word.size]

theorem readTokens_cons (ht : t.value ≠ .endOfInput) :
    readTokens (t :: ts) = t :: readTokens ts := by
  simp [readTokens, ht]

theorem readTokens_endOfInput (ht : t.value = .endOfInput) : readTokens (t :: ts) = [] := by
  simp [readTokens, ht]

/-- The bytes of code that statements take. -/
def totalSize (ss : List Statement) : Nat := (ss.map size).sum

@[simp] theorem totalSize_nil : totalSize [] = 0 := rfl

@[simp] theorem totalSize_cons (s : Statement) (ss : List Statement) :
    totalSize (s :: ss) = s.size + totalSize ss := by
  simp [totalSize]

@[simp] theorem totalSize_append (ss ss' : List Statement) :
    totalSize (ss ++ ss') = totalSize ss + totalSize ss' := by
  simp [totalSize]

/-- The statements have the size of the tokens that are read. -/
theorem Sequence.totalSize_read (h : Sequence ts ss) :
    Token.totalSize (readTokens ts) = totalSize ss := by
  induction h with
  | nil => rfl
  | done ht => rw [readTokens_endOfInput ht, totalSize_nil, Token.totalSize_nil]
  | skip ht _ ih =>
    rw [readTokens_cons ht.ne_endOfInput, Token.totalSize_cons, ht.size, ih, Nat.zero_add]
  | statement hs ht _ ih =>
    rw [readTokens_append hs.ne_endOfInput, readTokens_cons (ne_endOfInput_of_isDelimiter ht),
      Token.totalSize_append, Token.totalSize_cons, size_of_isDelimiter ht, ih, hs.totalSize,
      totalSize_cons]
    omega
  | last hs ht =>
    rw [readTokens_append hs.ne_endOfInput, readTokens_endOfInput ht, List.append_nil,
      hs.totalSize, totalSize_cons, totalSize_nil, Nat.add_zero]

theorem FurtherOperands.mem {os : List (Spelled Operand)} (h : FurtherOperands os us) :
    ∀ o ∈ os, o.toToken ∈ us := by
  induction h with
  | nil => simp
  | cons _ _ ih =>
    intro o ho
    rcases List.mem_cons.1 ho with rfl | ho
    · simp
    · simp [ih o ho]

theorem Tokens.head_mem (h : Tokens s us) : s.head ∈ us := by
  cases h <;> simp [head]

theorem Tokens.operand_mem (h : Tokens s us) : ∀ o ∈ s.operands, o.toToken ∈ us := by
  cases h with
  | bare m => simp
  | operands m o hos =>
    intro o' ho
    rcases List.mem_cons.1 ho with rfl | ho
    · simp
    · simp [hos.mem o' ho]

/-- Statements are made of tokens of the sequence. -/
theorem Sequence.mem (h : Sequence ts ss) :
    ∀ s ∈ ss, s.head ∈ ts ∧ ∀ o ∈ s.operands, o.toToken ∈ ts := by
  induction h with
  | nil => simp
  | done _ => simp
  | skip _ _ ih =>
    intro s hs
    obtain ⟨hm, ho⟩ := ih s hs
    exact ⟨List.mem_cons_of_mem _ hm, fun o h => List.mem_cons_of_mem _ (ho o h)⟩
  | statement hs _ _ ih =>
    intro s' hs'
    rcases List.mem_cons.1 hs' with rfl | hs'
    · exact ⟨List.mem_append_left _ hs.head_mem,
        fun o h => List.mem_append_left _ (hs.operand_mem o h)⟩
    · obtain ⟨hm, ho⟩ := ih s' hs'
      exact ⟨List.mem_append_right _ (List.mem_cons_of_mem _ hm),
        fun o h => List.mem_append_right _ (List.mem_cons_of_mem _ (ho o h))⟩
  | last hs _ =>
    intro s' hs'
    obtain rfl := List.mem_singleton.1 hs'
    exact ⟨List.mem_append_left _ hs.head_mem,
      fun o h => List.mem_append_left _ (hs.operand_mem o h)⟩

/-- The last of some elements is the one that is singled out, or it is behind that one. -/
theorem eq_or_exists_of_append_singleton {α : Type} {as bs cs : List α} {a b : α}
    (h : as ++ [a] = bs ++ b :: cs) :
    (as = bs ∧ a = b ∧ cs = []) ∨ ∃ ds, cs = ds ++ [a] ∧ as = bs ++ b :: ds := by
  rcases List.eq_nil_or_concat cs with rfl | ⟨ds, d, rfl⟩
  · obtain ⟨rfl, hlast⟩ := List.append_inj' h rfl
    cases hlast
    exact .inl ⟨rfl, rfl, rfl⟩
  · rw [List.concat_eq_append, ← List.cons_append, ← List.append_assoc] at h
    obtain ⟨rfl, hlast⟩ := List.append_inj' h rfl
    cases hlast
    exact .inr ⟨ds, List.concat_eq_append, rfl⟩

/-- What stands in front of a token that no statement holds, when the statement ends before it. -/
theorem Tokens.split (h : Tokens s us) {front back : List Token} {d : Token}
    (hd : d.value = .labelDefinition) (ht : t.value ≠ .labelDefinition)
    (heq : us ++ t :: ts = front ++ d :: back) :
    ∃ front', front = us ++ t :: front' ∧ ts = front' ++ d :: back := by
  have hdt : d ≠ t := by
    rintro rfl
    exact ht hd
  rcases List.append_eq_append_iff.1 heq with ⟨as, rfl, has⟩ | ⟨as, rfl, has⟩
  · rcases as with _ | ⟨a, as⟩
    · rw [List.nil_append, List.cons.injEq] at has
      exact absurd has.1.symm hdt
    · rw [List.cons_append, List.cons.injEq] at has
      obtain ⟨rfl, rfl⟩ := has
      exact ⟨as, rfl, rfl⟩
  · rcases as with _ | ⟨a, as⟩
    · rw [List.nil_append, List.cons.injEq] at has
      exact absurd has.1 hdt
    · rw [List.cons_append, List.cons.injEq] at has
      obtain ⟨rfl, -⟩ := has
      exact absurd hd (h.ne_labelDefinition d (by simp))

/-- **A label definition parts the statements**: those in front of it are derived from the tokens
in front of it, and those behind it from the tokens behind it. -/
theorem Sequence.split {front back : List Token} {d : Token}
    (h : Sequence (front ++ d :: back) ss) (hd : d.value = .labelDefinition)
    (hf : ∀ u ∈ front, u.value ≠ .endOfInput) :
    ∃ ss₁ ss₂, ss = ss₁ ++ ss₂ ∧ Sequence front ss₁ ∧ Sequence back ss₂ := by
  generalize heq : front ++ d :: back = ts at h
  -- by where the label stands: at the first token, or behind what the derivation takes first
  induction h generalizing front with
  | nil => simp at heq
  | done ht =>
    rcases front with _ | ⟨f, front⟩
    · obtain ⟨rfl, -⟩ := List.cons.inj heq
      rw [hd] at ht
      cases ht
    · obtain ⟨rfl, -⟩ := List.cons.inj heq
      exact absurd ht (hf _ (by simp))
  | @skip t ts ss ht h ih =>
    rcases front with _ | ⟨f, front⟩
    · obtain ⟨rfl, rfl⟩ := List.cons.inj heq
      exact ⟨[], ss, rfl, .nil, h⟩
    · obtain ⟨rfl, rfl⟩ := List.cons.inj heq
      obtain ⟨ss₁, ss₂, rfl, h₁, h₂⟩ := ih (fun u hu => hf u (by simp [hu])) rfl
      exact ⟨ss₁, ss₂, rfl, .skip ht h₁, h₂⟩
  | @statement s us t ts ss hs ht h ih =>
    have htd : t.value ≠ .labelDefinition := by
      rcases isDelimiter_iff.1 ht with ht | ht <;> simp [ht]
    obtain ⟨front', rfl, rfl⟩ := hs.split hd htd heq.symm
    obtain ⟨ss₁, ss₂, rfl, h₁, h₂⟩ := ih (fun u hu => hf u (by simp [hu])) rfl
    exact ⟨s :: ss₁, ss₂, rfl, .statement hs ht h₁, h₂⟩
  | @last s us t ts hs ht =>
    obtain ⟨front', rfl, -⟩ := hs.split hd (by simp [ht]) heq.symm
    exact absurd ht (hf t (by simp))

end Statement

end Asm256
