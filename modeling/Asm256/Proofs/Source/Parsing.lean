/-
Which tokens are parsed, and where parsing stops.

Only the tokens in front of the end of the input are read.  They have to be closed statements
(`Statement.Closes`) with at most one statement behind them, which the end of the input closes
(`Statement.Accepted`).  The reader knows no more of the tokens behind it than its place says, and
each place can still be completed:
* `Statement.parse_eq_ok_iff_accepted` — the tokens that are parsed;
* `Statement.Place.Reached.step` — what a token makes of the place that the tokens in front lead to;
* `Statement.Place.exists_leads` — a reader runs out of tokens, stops at one that does not fit, or
  gets to the end of the input;
* `Statement.Place.Reached.viable` — wherever it is, more tokens can make its own complete.

The main result is `first_impossible_token`.
-/
import Asm256.Proofs.Source.Grammar

namespace Asm256

namespace Statement

variable {s : Statement} {t c : Token} {ts us vs : List Token} {ss ss' : List Statement}

/-! ### Accepted tokens -/

/-- The tokens are statements that are closed by delimiters, with delimiters and label definitions
between them. -/
inductive Closes : List Token → List Statement → Prop
  | nil : Closes [] []
  | skip {t : Token} {ts : List Token} {ss : List Statement} (ht : Skipped t) (h : Closes ts ss) :
      Closes (t :: ts) ss
  | statement {s : Statement} {us : List Token} {t : Token} {ts : List Token} {ss : List Statement}
      (hs : Tokens s us) (ht : t.value.isDelimiter) (h : Closes ts ss) :
      Closes (us ++ t :: ts) (s :: ss)

/-- The tokens that are read are closed statements, or these and one more that the end of the input
closes. -/
def Accepted (ts : List Token) (ss : List Statement) : Prop :=
  Closes (readTokens ts) ss ∨ ∃ us vs ss' s, readTokens ts = us ++ vs ∧ Closes us ss' ∧
    Tokens s vs ∧ ss = ss' ++ [s] ∧ ∃ t ∈ ts, t.value = .endOfInput

/-- More tokens can make the tokens acceptable. -/
def Viable (ts : List Token) : Prop := ∃ rest ss, Accepted (ts ++ rest) ss

theorem Closes.append (h : Closes us ss) (h' : Closes ts ss') : Closes (us ++ ts) (ss ++ ss') := by
  induction h with
  | nil => exact h'
  | skip ht _ ih => exact .skip ht ih
  | statement hs ht _ ih =>
    rw [List.append_assoc]
    exact .statement hs ht ih

theorem Closes.ne_endOfInput (h : Closes ts ss) : ∀ u ∈ ts, u.value ≠ .endOfInput := by
  induction h with
  | nil => simp
  | skip ht _ ih => exact List.forall_mem_cons.2 ⟨ht.ne_endOfInput, ih⟩
  | statement hs ht _ ih =>
    exact List.forall_mem_append.2
      ⟨hs.ne_endOfInput, List.forall_mem_cons.2 ⟨ne_endOfInput_of_isDelimiter ht, ih⟩⟩

/-- Closed statements in front of a sequence make a sequence with it. -/
theorem Closes.sequence (h : Closes us ss) (h' : Sequence ts ss') :
    Sequence (us ++ ts) (ss ++ ss') := by
  induction h with
  | nil => exact h'
  | skip ht _ ih => exact .skip ht ih
  | statement hs ht _ ih =>
    rw [List.append_assoc]
    exact .statement hs ht ih

/-- The tokens that are read are all of them, or the end of the input is behind them. -/
theorem readTokens_cases (ts : List Token) : readTokens ts = ts ∨
    ∃ t rest, ts = readTokens ts ++ t :: rest ∧ t.value = .endOfInput := by
  induction ts with
  | nil => exact .inl rfl
  | cons u ts ih =>
    by_cases hu : u.value = .endOfInput
    · rw [readTokens_endOfInput hu]
      exact .inr ⟨u, ts, rfl, hu⟩
    · rw [readTokens_cons hu]
      rcases ih with ih | ⟨t, rest, hts, ht⟩
      · exact .inl (congrArg (u :: ·) ih)
      · exact .inr ⟨t, rest, congrArg (u :: ·) hts, ht⟩

theorem readTokens_ne_endOfInput : ∀ u ∈ readTokens ts, u.value ≠ .endOfInput := by
  intro u hu
  simpa using List.mem_takeWhile_imp hu

theorem Accepted.sequence (h : Accepted ts ss) : Sequence ts ss := by
  rcases h with h | ⟨us, vs, ss', s, hread, hus, hvs, rfl, e, he, heend⟩
  · rcases readTokens_cases ts with hall | ⟨t, rest, hts, ht⟩
    · rw [hall] at h
      simpa using h.sequence .nil
    · rw [hts]
      simpa using h.sequence (.done ht)
  · rcases readTokens_cases ts with hall | ⟨t, rest, hts, ht⟩
    · -- the end of the input is among the tokens, so they are not all read
      rw [← hall] at he
      exact absurd heend (readTokens_ne_endOfInput e he)
    · rw [hts, hread, List.append_assoc]
      exact hus.sequence (.last hvs ht)

theorem Sequence.accepted (h : Sequence ts ss) : Accepted ts ss := by
  induction h with
  | nil => exact .inl .nil
  | done ht =>
    rw [Accepted, readTokens_endOfInput ht]
    exact .inl .nil
  | @skip t ts ss ht _ ih =>
    have hone : Closes [t] [] := .skip ht .nil
    rw [Accepted, readTokens_cons ht.ne_endOfInput]
    rcases ih with ih | ⟨us, vs, ss', s, hread, hus, hvs, rfl, e, he, heend⟩
    · exact .inl (.skip ht ih)
    · rw [hread]
      exact .inr ⟨t :: us, vs, ss', s, rfl, .skip ht hus, hvs, rfl, e, .tail _ he, heend⟩
  | @statement s us t ts ss hs ht _ ih =>
    rw [Accepted, readTokens_append hs.ne_endOfInput,
      readTokens_cons (ne_endOfInput_of_isDelimiter ht)]
    rcases ih with ih | ⟨front, vs, ss', s', hread, hfront, hvs, rfl, e, he, heend⟩
    · exact .inl (.statement hs ht ih)
    · rw [hread]
      refine .inr ⟨us ++ t :: front, vs, s :: ss', s', by simp, .statement hs ht hfront, hvs, rfl,
        e, ?_, heend⟩
      exact List.mem_append_right _ (.tail _ he)
  | @last s us t ts hs ht =>
    rw [Accepted, readTokens_append hs.ne_endOfInput, readTokens_endOfInput ht, List.append_nil]
    exact .inr ⟨[], us, [], s, rfl, .nil, hs, rfl, t, by simp, ht⟩

/-- **The tokens that are parsed** are the accepted ones. -/
theorem parse_eq_ok_iff_accepted : parse ts = .ok ss ↔ Accepted ts ss :=
  parse_eq_ok_iff.trans ⟨Sequence.accepted, Accepted.sequence⟩

theorem Viable.of_append (h : Viable (ts ++ us)) : Viable ts := by
  obtain ⟨rest, ss, h⟩ := h
  exact ⟨us ++ rest, ss, by rwa [← List.append_assoc]⟩

/-! ### Places and the tokens that lead to them -/

theorem FurtherOperands.push {os : List (Spelled Operand)} {o : Spelled Operand}
    (h : FurtherOperands os us) (hc : c.value = .comma) :
    FurtherOperands (os ++ [o]) (us ++ [c, o.toToken]) := by
  induction h with
  | nil => exact .cons hc .nil
  | cons hc' _ ih => exact .cons hc' ih

/-- A statement with an operand takes a comma and one more operand. -/
theorem Tokens.push {o : Spelled Operand} (h : Tokens s us) (hne : s.operands ≠ [])
    (hc : c.value = .comma) : Tokens (s.push o) (us ++ [c, o.toToken]) := by
  cases h with
  | bare m => exact absurd rfl hne
  | operands m o' hos => exact .operands m o' (hos.push hc)

namespace Place

variable {place next last : Place} {done : Option Statement}

/-- The tokens lead to the place, with the statements `ss` closed on the way. -/
def Reached : Place → List Token → List Statement → Prop
  | .between, ts, ss => Closes ts ss
  | .afterMnemonic s, ts, ss => ∃ us, Closes us ss ∧ s.operands = [] ∧ ts = us ++ [s.head]
  | .afterOperand s, ts, ss => ∃ us vs, Closes us ss ∧ s.operands ≠ [] ∧ Tokens s vs ∧ ts = us ++ vs
  | .afterComma s, ts, ss => ∃ us vs c, Closes us ss ∧ s.operands ≠ [] ∧ Tokens s vs ∧
      c.value = .comma ∧ ts = us ++ vs ++ [c]

theorem tokens_bare (h : s.operands = []) : Tokens s [s.head] := by
  obtain ⟨m, os⟩ := s
  obtain rfl : os = [] := h
  exact .bare m

/-- A delimiter closes the statement that it stands behind. -/
theorem closes_statement (hus : Closes us ss) (hvs : Tokens s vs) (ht : t.value.isDelimiter) :
    Closes (us ++ vs ++ [t]) (ss ++ [s]) := by
  rw [List.append_assoc]
  exact hus.append (.statement hvs ht .nil)

/-- **A token that fits** leads on to the place behind it. -/
theorem Reached.step (h : place.Reached ts ss) (hstep : place.step t = .ok (done, next))
    (ht : t.value ≠ .endOfInput) : next.Reached (ts ++ [t]) (ss ++ done.toList) := by
  obtain ⟨value, lexeme, pos⟩ := t
  cases place with
  | between =>
    cases value with
    | mnemonic m =>
      cases hstep
      exact ⟨ts, by simpa [Reached] using h, rfl, rfl⟩
    | newline | semicolon =>
      cases hstep
      exact h.append (.skip (.inl rfl) .nil)
    | labelDefinition =>
      cases hstep
      exact h.append (.skip (.inr rfl) .nil)
    | endOfInput => exact absurd rfl ht
    | operand o | comma => cases hstep
  | afterMnemonic s =>
    obtain ⟨us, hus, hos, rfl⟩ := h
    cases value with
    | operand o =>
      cases hstep
      obtain ⟨m, os⟩ := s
      obtain rfl : os = [] := hos
      exact ⟨us, _, by simpa using hus, by simp [push], .operands m ⟨o, lexeme, pos⟩ .nil, by
        simp [head, Spelled.toToken]⟩
    | newline | semicolon =>
      cases hstep
      exact closes_statement hus (tokens_bare hos) rfl
    | endOfInput => exact absurd rfl ht
    | mnemonic m | comma | labelDefinition => cases hstep
  | afterOperand s =>
    obtain ⟨us, vs, hus, hne, hvs, rfl⟩ := h
    cases value with
    | comma =>
      cases hstep
      exact ⟨us, vs, _, by simpa using hus, hne, hvs, rfl, rfl⟩
    | newline | semicolon =>
      cases hstep
      exact closes_statement hus hvs rfl
    | endOfInput => exact absurd rfl ht
    | mnemonic m | operand o | labelDefinition => cases hstep
  | afterComma s =>
    obtain ⟨us, vs, c, hus, hne, hvs, hc, rfl⟩ := h
    cases value with
    | operand o =>
      cases hstep
      exact ⟨us, _, by simpa using hus, by simp [push], hvs.push (o := ⟨o, lexeme, pos⟩) hne hc, by
        simp [Spelled.toToken]⟩
    | _ => cases hstep

/-- **Every place can be completed**: by a delimiter, behind a comma by an operand in front of it. -/
theorem Reached.viable (h : place.Reached ts ss) : Viable ts := by
  have hclosed : ∀ {ts ss}, Closes ts ss → ∃ ss, Accepted ts ss := fun {ts ss} h =>
    ⟨ss, .inl (by rwa [readTokens_eq_self h.ne_endOfInput])⟩
  let newline : Token := ⟨.newline, "", .start⟩
  let operand : Spelled Operand := ⟨.literal 0, "", .start⟩
  cases place with
  | between => exact ⟨[], hclosed (by simpa [Reached] using h)⟩
  | afterMnemonic s =>
    obtain ⟨us, hus, hos, rfl⟩ := h
    exact ⟨[newline], hclosed (closes_statement hus (tokens_bare hos) rfl)⟩
  | afterOperand s =>
    obtain ⟨us, vs, hus, hne, hvs, rfl⟩ := h
    exact ⟨[newline], hclosed (closes_statement hus hvs rfl)⟩
  | afterComma s =>
    obtain ⟨us, vs, c, hus, hne, hvs, hc, rfl⟩ := h
    have hmore := closes_statement hus (hvs.push (o := operand) hne hc) (t := newline) rfl
    exact ⟨[operand.toToken, newline], hclosed (by simpa using hmore)⟩

/-! ### Runs of the reader -/

/-- The tokens take a reader from one place to another, with the statements `ss` closed on the way. -/
inductive Leads : Place → List Token → List Statement → Place → Prop
  | nil (place : Place) : Leads place [] [] place
  | cons {place next last : Place} {t : Token} {ts : List Token} {done : Option Statement}
      {ss : List Statement} (hstep : place.step t = .ok (done, next)) (ht : t.value ≠ .endOfInput)
      (h : Leads next ts ss last) : Leads place (t :: ts) (done.toList ++ ss) last

theorem Leads.parseFrom_append (h : Leads place us ss last) (ts : List Token) :
    parseFrom place (us ++ ts) = (parseFrom last ts).map (ss ++ ·) := by
  induction h with
  | nil place =>
    rw [List.nil_append]
    cases parseFrom place ts <;> rfl
  | @cons place next last t us done ss hstep ht _ ih =>
    rw [List.cons_append, parseFrom, hstep]
    simp only [if_neg ht, ih]
    cases parseFrom last ts with
    | error e => rfl
    | ok more => simp [Except.map]

theorem Leads.reached (h : Leads place us ss last) (hts : place.Reached ts ss') :
    last.Reached (ts ++ us) (ss' ++ ss) := by
  induction h generalizing ts ss' with
  | nil place => simpa using hts
  | cons hstep ht _ ih => simpa using ih (hts.step hstep ht)

theorem Leads.ne_endOfInput (h : Leads place us ss last) : ∀ u ∈ us, u.value ≠ .endOfInput := by
  induction h with
  | nil => simp
  | cons _ ht _ ih => exact List.forall_mem_cons.2 ⟨ht, ih⟩

/-- A reader gets through all of the tokens, up to the first that does not fit, or up to the end of
the input. -/
theorem exists_leads (place : Place) (ts : List Token) : ∃ before ss last,
    Leads place before ss last ∧ (ts = before ∨ ∃ t after, ts = before ++ t :: after ∧
      ((∃ e, last.step t = .error e) ∨
        t.value = .endOfInput ∧ ∃ result, last.step t = .ok result)) := by
  induction ts generalizing place with
  | nil => exact ⟨[], [], place, .nil place, .inl rfl⟩
  | cons t ts ih =>
    cases hstep : place.step t with
    | error e => exact ⟨[], [], place, .nil place, .inr ⟨t, ts, rfl, .inl ⟨e, hstep⟩⟩⟩
    | ok result =>
      obtain ⟨done, next⟩ := result
      by_cases ht : t.value = .endOfInput
      · exact ⟨[], [], place, .nil place, .inr ⟨t, ts, rfl, .inr ⟨ht, _, hstep⟩⟩⟩
      · obtain ⟨before, ss, last, hleads, hcase⟩ := ih next
        refine ⟨t :: before, done.toList ++ ss, last, .cons hstep ht hleads, ?_⟩
        rcases hcase with rfl | ⟨u, after, rfl, hu⟩
        · exact .inl rfl
        · exact .inr ⟨u, after, rfl, hu⟩

end Place

/-- **Parsing fails where it stops**: at a token that does not fit at the place that the tokens in
front lead to, or where the tokens run out. -/
theorem exists_stop_of_parseFrom_error {place : Place} {e : ParseError}
    (h : parseFrom place ts = .error e) : ∃ before ss last, place.Leads before ss last ∧
      (ts = before ∧ last.exhausted = some e ∨
        ∃ t after, ts = before ++ t :: after ∧ last.step t = .error e) := by
  obtain ⟨before, ss, last, hleads, hcase⟩ := place.exists_leads ts
  refine ⟨before, ss, last, hleads, ?_⟩
  rcases hcase with rfl | ⟨t, after, rfl, ⟨e', hstep⟩ | ⟨ht, ⟨done, next⟩, hstep⟩⟩
  · -- the tokens run out, which is an error unless it is between statements
    have hend := hleads.parseFrom_append []
    rw [List.append_nil, h, parseFrom] at hend
    cases hex : last.exhausted with
    | none =>
      rw [hex] at hend
      cases hend
    | some e' =>
      rw [hex] at hend
      cases hend
      exact .inl ⟨rfl, rfl⟩
  · rw [hleads.parseFrom_append, parseFrom, hstep] at h
    cases h
    exact .inr ⟨t, after, rfl, hstep⟩
  · -- the end of the input fits, and what is behind it is not read
    rw [hleads.parseFrom_append, parseFrom, hstep] at h
    simp only [if_pos ht] at h
    cases h

/-- Behind tokens that a token does not fit to, nothing is accepted. -/
theorem not_viable_of_step {last : Place} {e : ParseError} (h : Place.between.Leads us ss last)
    (hstep : last.step t = .error e) : ¬ Viable (us ++ [t]) := by
  rintro ⟨rest, ss', haccepted⟩
  have hparse := parse_eq_ok_iff_accepted.2 haccepted
  rw [List.append_assoc, List.singleton_append, parse, h.parseFrom_append, parseFrom, hstep]
    at hparse
  cases hparse

/-! ### Errors and the tokens that are parsed -/

/-- What is asked for behind the tokens `before`, when there is a token that is not that, or none:
between statements a mnemonic; behind a comma, and in front of a comma that follows a mnemonic, an
operand; in front of a second operand a comma; and behind a statement a delimiter. -/
inductive Expected : List Token → Option Token → ParseError → Prop
  | mnemonic {before : List Token} {ss : List Statement} {t : Token} (h : Closes before ss)
      (ht : t.value = .comma ∨ ∃ o, t.value = .operand o) :
      Expected before (some t) (.expectedMnemonic (some t))
  | firstOperand {us : List Token} {ss : List Statement} {s : Statement} {t : Token}
      (h : Closes us ss) (hs : s.operands = []) (ht : t.value = .comma) :
      Expected (us ++ [s.head]) (some t) (.expectedOperand (some t))
  | operand {us vs : List Token} {ss : List Statement} {s : Statement} {c : Token}
      {got : Option Token} (h : Closes us ss) (hs : Tokens s vs) (hne : s.operands ≠ [])
      (hc : c.value = .comma) (hgot : ∀ t ∈ got, ∀ o, t.value ≠ .operand o) :
      Expected (us ++ vs ++ [c]) got (.expectedOperand got)
  | comma {us vs : List Token} {ss : List Statement} {s : Statement} {t : Token} {o : Operand}
      (h : Closes us ss) (hs : Tokens s vs) (hne : s.operands ≠ []) (ht : t.value = .operand o) :
      Expected (us ++ vs) (some t) (.expectedOneOf [.comma] (some t))
  | delimiter {us vs : List Token} {ss : List Statement} {s : Statement} {got : Option Token}
      (h : Closes us ss) (hs : Tokens s vs)
      (hgot : ∀ t ∈ got, t.value = .labelDefinition ∨ ∃ m, t.value = .mnemonic m) :
      Expected (us ++ vs) got (.expectedOneOf [.semicolon, .newline] got)

theorem Place.Reached.expected {last : Place} {e : ParseError} (h : last.Reached ts ss)
    (hstep : last.step t = .error e) : Expected ts (some t) e := by
  obtain ⟨value, lexeme, pos⟩ := t
  cases last with
  | between =>
    cases value with
    | operand o =>
      cases hstep
      exact .mnemonic h (.inr ⟨o, rfl⟩)
    | comma =>
      cases hstep
      exact .mnemonic h (.inl rfl)
    | _ => cases hstep
  | afterMnemonic s =>
    obtain ⟨us, hus, hos, rfl⟩ := h
    cases value with
    | comma =>
      cases hstep
      exact .firstOperand hus hos rfl
    | mnemonic m =>
      cases hstep
      exact .delimiter hus (tokens_bare hos) (by simp)
    | labelDefinition =>
      cases hstep
      exact .delimiter hus (tokens_bare hos) (by simp)
    | _ => cases hstep
  | afterOperand s =>
    obtain ⟨us, vs, hus, hne, hvs, rfl⟩ := h
    cases value with
    | operand o =>
      cases hstep
      exact .comma hus hvs hne rfl
    | mnemonic m =>
      cases hstep
      exact .delimiter hus hvs (by simp)
    | labelDefinition =>
      cases hstep
      exact .delimiter hus hvs (by simp)
    | _ => cases hstep
  | afterComma s =>
    obtain ⟨us, vs, c, hus, hne, hvs, hc, rfl⟩ := h
    cases value with
    | operand o => cases hstep
    | _ =>
      cases hstep
      exact .operand hus hvs hne hc (by simp)

theorem Place.Reached.expected_none {last : Place} {e : ParseError} (h : last.Reached ts ss)
    (hex : last.exhausted = some e) : Expected ts none e := by
  cases last with
  | between => cases hex
  | afterMnemonic s =>
    obtain ⟨us, hus, hos, rfl⟩ := h
    cases hex
    exact .delimiter hus (tokens_bare hos) (by simp)
  | afterOperand s =>
    obtain ⟨us, vs, hus, hne, hvs, rfl⟩ := h
    cases hex
    exact .delimiter hus hvs (by simp)
  | afterComma s =>
    obtain ⟨us, vs, c, hus, hne, hvs, hc, rfl⟩ := h
    cases hex
    exact .operand hus hvs hne hc (by simp)

theorem Expected.got_eq {got : Option Token} {e : ParseError} (h : Expected ts got e) :
    e.got = got := by
  cases h <;> rfl

/-- The mnemonic and the operands of a statement as tokens. -/
def tokens (s : Statement) : List Token := s.head :: s.operands.map Spelled.toToken

/-- The token is a mnemonic or an operand. -/
def isCode (t : Token) : Bool :=
  t.value.tokenClass = .mnemonic || t.value.tokenClass = .operand

theorem isCode_eq_false (h : t.value.size = 0) : isCode t = false := by
  obtain ⟨value, lexeme, pos⟩ := t
  cases value <;> first | rfl | cases h

theorem FurtherOperands.filter_isCode {os : List (Spelled Operand)} (h : FurtherOperands os us) :
    us.filter isCode = os.map Spelled.toToken := by
  induction h with
  | nil => rfl
  | cons hc _ ih =>
    rw [List.filter_cons_of_neg (by simp [isCode, hc, Word.tokenClass]),
      List.filter_cons_of_pos rfl, ih, List.map_cons]

theorem Tokens.filter_isCode (h : Tokens s us) : us.filter isCode = s.tokens := by
  cases h with
  | bare m => rfl
  | operands m o hos =>
    rw [List.filter_cons_of_pos rfl, List.filter_cons_of_pos rfl, hos.filter_isCode]
    rfl

theorem Closes.filter_isCode (h : Closes ts ss) : ts.filter isCode = ss.flatMap tokens := by
  induction h with
  | nil => rfl
  | skip ht _ ih => rw [List.filter_cons_of_neg (by simp [isCode_eq_false ht.size]), ih]
  | statement hs ht _ ih =>
    rw [List.filter_append, hs.filter_isCode,
      List.filter_cons_of_neg (by simp [isCode_eq_false (size_of_isDelimiter ht)]), ih,
      List.flatMap_cons]

/-- No mnemonic and no operand is lost, repeated or moved. -/
theorem Accepted.filter_isCode (h : Accepted ts ss) :
    (readTokens ts).filter isCode = ss.flatMap tokens := by
  rcases h with h | ⟨us, vs, ss', s, hread, hus, hvs, rfl, -⟩
  · exact h.filter_isCode
  · rw [hread, List.filter_append, hus.filter_isCode, hvs.filter_isCode, List.flatMap_append,
      List.flatMap_singleton]

end Statement

open Statement in
/-- **Parsing accepts exactly the grammar and stops at the first impossible token**, whatever the
tokens are.  The tokens in front of the end of the input have to be closed statements, and one more
if the end of the input closes it; the mnemonics and operands of the statements that are found are
those of these tokens, in order.  Otherwise the error says what is asked for behind the tokens that
can still be completed: at the first token with which they cannot, or without a token, exactly if all
of them can, where they run out in a statement. -/
theorem first_impossible_token (ts : List Token) :
    (∀ ss, parse ts = .ok ss ↔ Accepted ts ss) ∧
    (∀ ss, parse ts = .ok ss → ss.flatMap tokens = (readTokens ts).filter isCode) ∧
    ∀ e, parse ts = .error e → (e.got = none ↔ Viable ts) ∧
      ∃ before, Viable before ∧ Expected before e.got e ∧
        (ts = before ∧ (∀ t ∈ ts, t.value ≠ .endOfInput) ∨
          ∃ t after, ts = before ++ t :: after ∧ e.got = some t ∧ ¬ Viable (before ++ [t])) := by
  refine ⟨fun ss => parse_eq_ok_iff_accepted, fun ss h => ?_, fun e h => ?_⟩
  · exact (parse_eq_ok_iff_accepted.1 h).filter_isCode.symm
  · obtain ⟨before, ss, last, hleads, hcase⟩ := exists_stop_of_parseFrom_error h
    have hstart : Place.between.Reached [] [] := Closes.nil
    have hreached : last.Reached before ss := hleads.reached hstart
    rcases hcase with ⟨rfl, hex⟩ | ⟨t, after, rfl, hstep⟩
    · have hexpected := hreached.expected_none hex
      rw [hexpected.got_eq]
      exact ⟨iff_of_true rfl hreached.viable, _, hreached.viable, hexpected,
        .inl ⟨rfl, hleads.ne_endOfInput⟩⟩
    · have hexpected := hreached.expected hstep
      have hnot := not_viable_of_step hleads hstep
      rw [hexpected.got_eq]
      refine ⟨iff_of_false (by simp) fun hviable => ?_, before, hreached.viable, hexpected,
        .inr ⟨t, after, rfl, rfl, hnot⟩⟩
      rw [← List.singleton_append, ← List.append_assoc] at hviable
      exact hnot hviable.of_append

/-- Behind a comma the end of the input is impossible, but that the tokens run out there is not: an
operand can still follow. -/
theorem first_impossible_token_comma :
    let move : Token := ⟨.mnemonic .mov, "MOV", ⟨1, 1⟩⟩
    let register : Token := ⟨.operand (.register 1), "R1", ⟨1, 5⟩⟩
    let comma : Token := ⟨.comma, ",", ⟨1, 7⟩⟩
    let finish : Token := ⟨.endOfInput, "", ⟨1, 8⟩⟩
    Statement.parse [move, register, comma, finish] = .error (.expectedOperand (some finish)) ∧
    ¬ Statement.Viable [move, register, comma, finish] ∧
    Statement.parse [move, register, comma] = .error (.expectedOperand none) ∧
    Statement.Viable [move, register, comma] := by
  intro move register comma finish
  have hfinish : Statement.parse [move, register, comma, finish] =
      .error (.expectedOperand (some finish)) := by decide
  have hnone : Statement.parse [move, register, comma] = .error (.expectedOperand none) := by decide
  obtain ⟨-, -, herror⟩ := first_impossible_token [move, register, comma, finish]
  obtain ⟨-, -, herror'⟩ := first_impossible_token [move, register, comma]
  obtain ⟨hgot, -⟩ := herror _ hfinish
  obtain ⟨hgot', -⟩ := herror' _ hnone
  exact ⟨hfinish, fun hviable => absurd (hgot.2 hviable) (by decide), hnone, hgot'.1 rfl⟩

end Asm256
