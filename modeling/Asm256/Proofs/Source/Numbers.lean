/-
Numbers in a source text, and how reading the text can end.

Where the scan of a text gets to a number (`NumberAt`), all of its digits are
taken, and what they denote decides on how it goes on:
* `Item.read_number` — what is read where digits stand behind a mark of numbers;
* `Item.misspelling_of_read` — what is wrong where no item can be read;
* `Tally.scans_number` — a number in range is read, and its operand is the next token;
* `numbers_of_text` — numbers are read or reported, and all errors but those of too many digits are
  errors of the program.
-/
import Asm256.Instruction.Table
import Asm256.Proofs.Outcome
import Asm256.Proofs.Source.Scan

namespace Asm256

/-! ### Numbers -/

/-- The kinds of numbers in a text: references to memory, literals and registers. -/
inductive NumberMark
  | memory | literal | register
  deriving DecidableEq, Repr

namespace NumberMark

/-- What stands in front of the digits. -/
def chars : NumberMark → List Char
  | memory => []
  | literal => ['#']
  | register => ['R']

/-- The operand of a number. -/
def operand (n : Int) : NumberMark → Operand
  | memory => .memory n
  | literal => .literal n
  | register => .register n

/-- The numbers of the kind are less than this: bytes, or numbers of registers. -/
def bound : NumberMark → Nat
  | memory | literal => 256
  | register => registerCount

theorem bound_le (mark : NumberMark) : mark.bound ≤ 256 := by
  cases mark <;> decide

end NumberMark

/-- The text starts with a number of this kind, which has all digits that stand there. -/
structure NumberAt (mark : NumberMark) (digits rest text : List Char) : Prop where
  eq : text = mark.chars ++ digits ++ rest
  ne_nil : digits ≠ []
  isDigit : ∀ d ∈ digits, Decimal.isDigit d
  stops : Text.Stops Decimal.isDigit rest

theorem NumberAt.exists_cons {mark : NumberMark} {digits rest text : List Char}
    (h : NumberAt mark digits rest text) : ∃ c cs, text = c :: cs := by
  refine List.exists_cons_of_ne_nil fun hnil => h.ne_nil ?_
  have heq := h.eq.symm.trans hnil
  simp only [List.append_eq_nil_iff] at heq
  exact heq.1.2

namespace Item

variable {mark : NumberMark} {digits rest skipped : List Char} {c : Char} {cs : List Char}
  {e : Decimal.TooLong}

theorem readNumber_of_long (h : Decimal.maxDigits < digits.length) :
    readNumber skipped digits = .error (.tooLong ⟨digits.length⟩) := by
  rw [readNumber, Decimal.read, if_pos h]

theorem readNumber_of_large (h : digits.length ≤ Decimal.maxDigits)
    (hv : 255 < Decimal.value digits) :
    readNumber skipped digits = .error (.error (.valueTooLarge (String.ofList digits)) skipped) := by
  rw [readNumber, Decimal.read, if_neg (Nat.not_lt.2 h)]
  exact if_neg (Nat.not_lt.2 hv)

theorem readNumber_of_byte (h : digits.length ≤ Decimal.maxDigits)
    (hv : Decimal.value digits ≤ 255) : readNumber skipped digits = .ok (Decimal.value digits) :=
  readNumber_eq_ok_iff.2 ⟨h, rfl, Nat.lt_succ_of_le hv⟩

/-- **What is read at a number**: all of its digits are taken, and their number is checked. -/
theorem read_number (h : NumberAt mark digits rest (c :: cs)) : read c cs =
      match readNumber mark.chars digits with
      | .error e => .error e
      | .ok n =>
          if n < mark.bound then
            .ok ⟨.token (.operand (mark.operand n)), mark.chars ++ digits, rest⟩
          else .error (.error (.registerOutOfRange n registerCount) []) := by
  obtain ⟨heq, hne, hdigits, hr⟩ := h
  have htake := takeWhile_append_of_stops hdigits hr
  have hdrop := dropWhile_append_of_stops hdigits hr
  -- a number that is read is a byte, so the bound is one for registers only
  have hbyte : ∀ n, readNumber mark.chars digits = .ok n → n < 256 :=
    fun n h => (readNumber_eq_ok_iff.1 h).2.2
  cases mark with
  | memory =>
    obtain ⟨d, ds, rfl⟩ := List.exists_cons_of_ne_nil hne
    have hcs : c :: cs = d :: ds ++ rest := heq
    obtain ⟨rfl, -⟩ := List.cons.inj hcs
    rw [read_of_isDigit (hdigits c (by simp)), hcs]
    simp only [readMemory, htake, hdrop]
    cases h : readNumber [] (c :: ds) with
    | error e => simp only [NumberMark.chars, h]
    | ok n =>
      have hn : n < NumberMark.memory.bound := hbyte n h
      simp only [NumberMark.chars, h]
      rw [if_pos hn]
      rfl
  | literal =>
    cases heq
    show readLiteral (digits ++ rest) = _
    simp only [readLiteral, htake, hdrop, List.isEmpty_iff, hne, if_false]
    cases h : readNumber ['#'] digits with
    | error e => simp only [NumberMark.chars, h]
    | ok n =>
      have hn : n < NumberMark.literal.bound := hbyte n h
      simp only [NumberMark.chars, h]
      rw [if_pos hn]
      rfl
  | register =>
    cases heq
    show read 'R' (digits ++ rest) = _
    rw [read_registerMark hne hdigits]
    simp only [readRegister, htake, hdrop, List.isEmpty_iff, hne, if_false]
    rfl

/-! ### Errors -/

/-- Why the front of a text is no item.  An error is placed behind the characters that come with it:
at the first digit of a value that is too large, and otherwise where the item would start. -/
inductive Misspelling : List Char → Refusal → Prop
  | unexpectedCharacter {c : Char} {cs : List Char} (hblank : Text.isBlank c = false)
      (hdigit : Decimal.isDigit c = false) (hname : isNameChar c = false)
      (hmark : c ∉ ['\n', ';', ',', '/', '#']) :
      Misspelling (c :: cs) (.error (.unexpectedCharacter c) [])
  | invalidComment {cs : List Char} (hline : cs.head? ≠ some '/') (hblock : cs.head? ≠ some '*') :
      Misspelling ('/' :: cs) (.error .invalidComment [])
  | unterminatedComment {cs : List Char} (h : ¬ ['*', '/'] <:+: cs) :
      Misspelling ('/' :: '*' :: cs) (.error .unterminatedComment [])
  | missingLiteralNumber {cs : List Char} (h : Text.Stops Decimal.isDigit cs) :
      Misspelling ('#' :: cs) (.error .missingLiteralNumber [])
  | missingRegisterNumber {cs : List Char} (hname : Text.Stops isNameChar cs)
      (h : Text.Stops Decimal.isDigit cs) :
      Misspelling ('R' :: cs) (.error .missingRegisterNumber [])
  | tooLong {mark : NumberMark} {digits rest text : List Char} (h : NumberAt mark digits rest text)
      (hlong : Decimal.maxDigits < digits.length) : Misspelling text (.tooLong ⟨digits.length⟩)
  | valueTooLarge {mark : NumberMark} {digits rest text : List Char}
      (h : NumberAt mark digits rest text) (hv : 255 < Decimal.value digits) :
      Misspelling text (.error (.valueTooLarge (String.ofList digits)) mark.chars)
  | registerOutOfRange {mark : NumberMark} {digits rest text : List Char}
      (h : NumberAt mark digits rest text) (hv : Decimal.value digits ≤ 255)
      (hbound : mark.bound ≤ Decimal.value digits) :
      Misspelling text (.error (.registerOutOfRange (Decimal.value digits) registerCount) [])

variable {refusal : Refusal}

/-- What is wrong with a number that is not read. -/
theorem misspelling_of_number (h : NumberAt mark digits rest (c :: cs))
    (hr : read c cs = .error refusal) : Misspelling (c :: cs) refusal := by
  have hread := (read_number h).symm.trans hr
  by_cases hlong : Decimal.maxDigits < digits.length
  · rw [readNumber_of_long hlong] at hread
    cases hread
    exact .tooLong h hlong
  have hlen := Nat.le_of_not_lt hlong
  by_cases hv : Decimal.value digits ≤ 255
  · rw [readNumber_of_byte hlen hv] at hread
    by_cases hbound : Decimal.value digits < mark.bound
    · simp only [if_pos hbound] at hread
      cases hread
    · simp only [if_neg hbound] at hread
      cases hread
      exact .registerOutOfRange h hv (Nat.le_of_not_lt hbound)
  · rw [readNumber_of_large hlen (Nat.lt_of_not_le hv)] at hread
    cases hread
    exact .valueTooLarge h (Nat.lt_of_not_le hv)

/-- Behind a mark of numbers there are digits, or the text goes on without one. -/
theorem numberAt_or_stops (mark : NumberMark) (cs : List Char) :
    (∃ digits rest, NumberAt mark digits rest (mark.chars ++ cs)) ∨
      cs.takeWhile Decimal.isDigit = [] ∧ Text.Stops Decimal.isDigit cs := by
  have hsplit := List.takeWhile_append_dropWhile (p := Decimal.isDigit) (l := cs)
  have hstops := stops_dropWhile Decimal.isDigit cs
  by_cases hne : cs.takeWhile Decimal.isDigit = []
  · rw [hne, List.nil_append] at hsplit
    rw [hsplit] at hstops
    exact .inr ⟨hne, hstops⟩
  · refine .inl ⟨_, cs.dropWhile Decimal.isDigit, ?_, hne, fun d hd => of_mem_takeWhile hd, hstops⟩
    rw [List.append_assoc, hsplit]

theorem blockComment?_eq_none (h : blockComment? cs = none) : ¬ ['*', '/'] <:+: cs := by
  fun_induction blockComment? cs with
  | case1 rest => cases h
  | case2 c cs hc ih =>
    rw [List.infix_cons_iff]
    rintro (⟨rest, heq⟩ | hinfix)
    · cases heq
      exact hc rest rfl rfl
    · exact ih (Option.map_eq_none_iff.1 h) hinfix
  | case3 => simp

theorem misspelling_of_readComment (h : readComment cs = .error refusal) :
    Misspelling ('/' :: cs) refusal := by
  unfold readComment at h
  split at h
  · cases h
  · split at h
    · cases h
    · next hnone =>
      cases h
      exact .unterminatedComment (blockComment?_eq_none hnone)
  · next hline hblock =>
    cases h
    refine .invalidComment (fun hhead => ?_) fun hhead => ?_
    · obtain ⟨tail, rfl⟩ := List.head?_eq_some_iff.1 hhead
      exact hline tail rfl
    · obtain ⟨tail, rfl⟩ := List.head?_eq_some_iff.1 hhead
      exact hblock tail rfl

/-- A name is never refused, so a word that is refused is the register mark. -/
theorem misspelling_of_readWord (hc : isNameChar c) (h : read c cs = .error refusal) :
    Misspelling (c :: cs) refusal := by
  have hword := h
  rw [read_of_isNameChar hc, readWord] at hword
  split at hword
  · next hname =>
    have hsplit := List.takeWhile_append_dropWhile (p := isNameChar) (l := c :: cs)
    have hstops := stops_dropWhile isNameChar (c :: cs)
    rw [hname, List.singleton_append] at hsplit
    obtain ⟨rfl, hcs⟩ := List.cons.inj hsplit
    rw [hcs] at hword hstops
    rcases numberAt_or_stops .register cs with ⟨digits, rest, hnumber⟩ | ⟨hnil, hdigits⟩
    · exact misspelling_of_number hnumber h
    · simp only [readRegister, hnil, List.isEmpty_nil, if_true] at hword
      cases hword
      exact .missingRegisterNumber hstops hdigits
  · unfold readName at hword
    extract_lets at hword
    split at hword
    · cases hword
    · split at hword <;> cases hword

/-- **What is wrong where no item can be read.** -/
theorem misspelling_of_read (h : read c cs = .error refusal) : Misspelling (c :: cs) refusal := by
  have hread := h
  simp only [read] at hread
  split at hread
  · cases hread
  next hn =>
  split at hread
  · cases hread
  next hblank =>
  split at hread
  · cases hread
  next hsemicolon =>
  split at hread
  · cases hread
  next hcomma =>
  split at hread
  · next hc =>
    rw [hc]
    exact misspelling_of_readComment hread
  next hslash =>
  split at hread
  · next hc =>
    rcases numberAt_or_stops .memory (c :: cs) with ⟨digits, rest, hnumber⟩ | ⟨-, hstops⟩
    · exact misspelling_of_number hnumber h
    · exact absurd hc (by simp [hstops c rfl])
  next hdigit =>
  split at hread
  · next hc =>
    subst hc
    rcases numberAt_or_stops .literal cs with ⟨digits, rest, hnumber⟩ | ⟨hnil, hstops⟩
    · exact misspelling_of_number hnumber h
    · simp only [readLiteral, hnil, List.isEmpty_nil, if_true] at hread
      cases hread
      exact .missingLiteralNumber hstops
  next hhash =>
  split at hread
  · next hc => exact misspelling_of_readWord hc h
  next hname =>
  cases hread
  exact .unexpectedCharacter (by simpa using hblank) (by simpa using hdigit) (by simpa using hname)
    (by simp [hn, hsemicolon, hcomma, hslash, hhash])

end Item

/-! ### Scanning a number -/

namespace Tally

variable {w : Nat} {t : Tally} {mark : NumberMark} {c : Char} {cs digits rest text : List Char}

theorem scan_of_number_long (h : NumberAt mark digits rest text)
    (hlong : Decimal.maxDigits < digits.length) :
    t.scan w text = .error (.tooLong ⟨digits.length⟩) := by
  obtain ⟨c, cs, rfl⟩ := h.exists_cons
  have hread := Item.read_number h
  rw [Item.readNumber_of_long hlong] at hread
  exact scan_of_read_error hread

theorem scan_of_number_large (h : NumberAt mark digits rest text)
    (hlen : digits.length ≤ Decimal.maxDigits) (hv : 255 < Decimal.value digits) :
    t.scan w text =
      .error (.lexical (.valueTooLarge (String.ofList digits)) (t.pos.after w mark.chars)) := by
  obtain ⟨c, cs, rfl⟩ := h.exists_cons
  have hread := Item.read_number h
  rw [Item.readNumber_of_large hlen hv] at hread
  exact scan_of_read_error hread

theorem scan_of_number_out_of_range (h : NumberAt mark digits rest text)
    (hlen : digits.length ≤ Decimal.maxDigits) (hv : Decimal.value digits ≤ 255)
    (hbound : mark.bound ≤ Decimal.value digits) :
    t.scan w text =
      .error (.lexical (.registerOutOfRange (Decimal.value digits) registerCount) t.pos) := by
  obtain ⟨c, cs, rfl⟩ := h.exists_cons
  have hread := Item.read_number h
  rw [Item.readNumber_of_byte hlen hv] at hread
  rw [scan_of_read_error (hread.trans (if_neg (Nat.not_lt.2 hbound)))]
  rfl

theorem read_of_number_in_range (h : NumberAt mark digits rest (c :: cs))
    (hlen : digits.length ≤ Decimal.maxDigits) (hv : Decimal.value digits < mark.bound) :
    Item.read c cs =
      .ok ⟨.token (.operand (mark.operand (Decimal.value digits))), mark.chars ++ digits, rest⟩ := by
  have hbyte : Decimal.value digits ≤ 255 :=
    Nat.le_of_lt_succ (Nat.lt_of_lt_of_le hv mark.bound_le)
  have hread := Item.read_number h
  rw [Item.readNumber_of_byte hlen hbyte] at hread
  exact hread.trans (if_pos hv)

/-- **A number in range is read**, and its operand is the next token, if there is room for it. -/
theorem scans_number (h : NumberAt mark digits rest text)
    (hlen : digits.length ≤ Decimal.maxDigits) (hv : Decimal.value digits < mark.bound)
    (hroom : t.byteCount < memorySize) : ∃ t', Scans w t text t' rest ∧
      t'.tokens = ⟨.operand (mark.operand (Decimal.value digits)),
        String.ofList (mark.chars ++ digits), t.pos⟩ :: t.tokens := by
  obtain ⟨c, cs, rfl⟩ := h.exists_cons
  have hread := read_of_number_in_range h hlen hv
  refine ⟨_, .step hread (add_eq_ok_iff.2 ⟨?_, rfl⟩) .refl, rfl⟩
  exact hroom

theorem scan_of_number_full (h : NumberAt mark digits rest text)
    (hlen : digits.length ≤ Decimal.maxDigits) (hv : Decimal.value digits < mark.bound)
    (hfull : memorySize ≤ t.byteCount) :
    t.scan w text = .error (.lexical .programTooLarge t.pos) := by
  obtain ⟨c, cs, rfl⟩ := h.exists_cons
  have hread := read_of_number_in_range h hlen hv
  rw [scan_of_read hread]
  have hadd : t.addItem ⟨.token (.operand (mark.operand (Decimal.value digits))),
      mark.chars ++ digits⟩ = .error .programTooLarge := by
    exact if_pos (Nat.lt_succ_of_le hfull)
  rw [add, hadd]
  rfl

end Tally

/-! ### Whole texts -/

open Tally (Scans)

variable {w : Nat} {text : List Char}

/-- **Where reading fails without an error of the program**: at a number of too many digits. -/
theorem ofText_eq_tooLong_iff {e : Decimal.TooLong} :
    TokenStream.ofText w text = .error (.tooLong e) ↔
      ∃ t src mark digits rest, Scans w {} text t src ∧ NumberAt mark digits rest src ∧
        Decimal.maxDigits < digits.length ∧ e = ⟨digits.length⟩ := by
  rw [Tally.ofText_eq_scan]
  constructor
  · intro h
    obtain ⟨t, src, hscans, hends⟩ := Tally.exists_end w {} text
    rw [h] at hends
    generalize hresult : Except.error (ScanError.tooLong e) = result at hends
    cases hends with
    | finished => cases hresult
    | misfit _ _ => cases hresult
    | @refused c cs refusal hread =>
      cases refusal with
      | error l skipped => cases hresult
      | tooLong e' =>
        cases hresult
        cases Item.misspelling_of_read hread with
        | @tooLong mark digits rest _ hnumber hlong =>
          exact ⟨t, _, mark, digits, rest, hscans, hnumber, hlong, rfl⟩
  · rintro ⟨t, src, mark, digits, rest, hscans, hnumber, hlong, rfl⟩
    rw [hscans.scan_eq, Tally.scan_of_number_long hnumber hlong]

/-- **Numbers are read, or reported where they stand.**  Where the scan of a text gets to a number of
at most `Decimal.maxDigits` digits, it goes on behind it with an operand for the number that the
digits denote, whatever zeros they start with, if that number is in range and the code has room; a
number that is no byte is reported at its first digit.  All errors are errors of the program, but
for one: a number of more digits, which is not converted. -/
theorem numbers_of_text (tree : SignatureTree) (w : Nat) (text : List Char) :
    (∀ t src mark digits rest, Scans w {} text t src → NumberAt mark digits rest src →
      digits.length ≤ Decimal.maxDigits →
      ∃ front, text = front ++ mark.chars ++ digits ++ rest ∧
        (255 < Decimal.value digits → TokenStream.ofText w text =
          .error (.lexical (.valueTooLarge (String.ofList digits))
            (Position.start.after w (front ++ mark.chars)))) ∧
        (Decimal.value digits ≤ 255 → mark.bound ≤ Decimal.value digits →
          TokenStream.ofText w text =
            .error (.lexical (.registerOutOfRange (Decimal.value digits) registerCount)
              (Position.start.after w front))) ∧
        (Decimal.value digits < mark.bound → memorySize ≤ t.byteCount →
          TokenStream.ofText w text =
            .error (.lexical .programTooLarge (Position.start.after w front))) ∧
        (Decimal.value digits < mark.bound → t.byteCount < memorySize →
          let token : Token := ⟨.operand (mark.operand (Decimal.value digits)),
            String.ofList (mark.chars ++ digits), Position.start.after w front⟩
          (∃ t', Scans w {} text t' rest ∧ t'.tokens = token :: t.tokens) ∧
            ∀ s, TokenStream.ofText w text = .ok s → token ∈ s.tokens)) ∧
    (∀ e, TokenStream.ofText w text = .error (.tooLong e) ↔
      ∃ t src mark digits rest, Scans w {} text t src ∧ NumberAt mark digits rest src ∧
        Decimal.maxDigits < digits.length ∧ e = ⟨digits.length⟩) ∧
    ∀ e, assemble tree w text = .error e →
      (∃ s, e = .source s) ∨ ∃ n, e = .tooLong n ∧ TokenStream.ofText w text = .error (.tooLong n) := by
  refine ⟨fun t src mark digits rest hscans hnumber hlen => ?_, fun e => ofText_eq_tooLong_iff,
    fun e he => ?_⟩
  · obtain ⟨front, htext, hpos⟩ := hscans.exists_front
    have hstart : t.pos = Position.start.after w front := hpos
    refine ⟨front, ?_, fun hv => ?_, fun hv hbound => ?_, fun hv hfull => ?_, fun hv hroom => ?_⟩
    · rw [htext, hnumber.eq, List.append_assoc, List.append_assoc, List.append_assoc]
    · rw [Tally.ofText_eq_scan, hscans.scan_eq, Tally.scan_of_number_large hnumber hlen hv, hstart,
        ← Position.after_append]
    · rw [Tally.ofText_eq_scan, hscans.scan_eq,
        Tally.scan_of_number_out_of_range hnumber hlen hv hbound, hstart]
    · rw [Tally.ofText_eq_scan, hscans.scan_eq, Tally.scan_of_number_full hnumber hlen hv hfull,
        hstart]
    · obtain ⟨t', hstep, htokens⟩ := Tally.scans_number hnumber hlen hv hroom
      rw [hstart] at htokens
      have hscans' := hscans.trans hstep
      refine ⟨⟨t', hscans', htokens⟩, fun s hs => ?_⟩
      rw [Tally.ofText_eq_scan, hscans'.scan_eq] at hs
      refine Tally.mem_tokens_of_scan hs ?_
      rw [htokens]
      exact List.mem_cons_self
  · rcases exists_error_of_assemble he with ⟨s, rfl⟩ | ⟨n, hcut, rfl⟩
    · exact .inl ⟨s, rfl⟩
    · refine .inr ⟨n, rfl, ?_⟩
      cases hscan : TokenStream.ofText w text with
      | ok s =>
        -- a text that is read is cut to its end
        obtain ⟨ps, hps, -⟩ := TokenStream.ofText_eq_ok_iff.1 hscan
        rw [hps] at hcut
        cases hcut
      | error l =>
        unfold assemble scanText at he
        rw [hscan] at he
        cases l with
        | lexical l pos => cases he
        | tooLong n' =>
          cases he
          rfl

/-- A literal with leading zeros that is read, one that is reported at its first digit, and a
reference to memory of 4301 zeros. -/
theorem numbers_of_text_zeros :
    (∀ s, TokenStream.ofText 4 [' ', '#', '0', '0', '7'] = .ok s →
      ⟨.operand (.literal 7), "#007", ⟨1, 2⟩⟩ ∈ s.tokens) ∧
    TokenStream.ofText 4 [' ', '#', '0', '3', '0', '0'] =
      .error (.lexical (.valueTooLarge "0300") ⟨1, 3⟩) ∧
    TokenStream.ofText 4 (List.replicate 4301 '0') = .error (.tooLong ⟨4301⟩) := by
  have hblank : ∀ cs, Scans 4 {} (' ' :: cs) { pos := ⟨1, 2⟩ } cs := fun cs =>
    .step (r := ⟨.gap, [' '], cs⟩) rfl rfl .refl
  have hseven : NumberAt .literal ['0', '0', '7'] [] ['#', '0', '0', '7'] :=
    ⟨rfl, by simp, by simp; decide, by simp [Text.Stops]⟩
  have hlarge : NumberAt .literal ['0', '3', '0', '0'] [] ['#', '0', '3', '0', '0'] :=
    ⟨rfl, by simp, by simp; decide, by simp [Text.Stops]⟩
  have hzeros : NumberAt .memory (List.replicate 4301 '0') [] (List.replicate 4301 '0') := by
    refine ⟨(List.append_nil _).symm, ?_, fun c hc => ?_, by simp [Text.Stops]⟩
    · exact List.ne_nil_of_length_pos (by rw [List.length_replicate]; decide)
    · rw [List.eq_of_mem_replicate hc]
      decide
  refine ⟨?_, ?_, ?_⟩
  · obtain ⟨hnumbers, -⟩ := numbers_of_text .standard 4 [' ', '#', '0', '0', '7']
    obtain ⟨front, hfront, -, -, -, hread⟩ := hnumbers _ _ _ _ _ (hblank _) hseven (by decide)
    have hfront' : front ++ ['#', '0', '0', '7'] = [' '] ++ ['#', '0', '0', '7'] := by
      simpa [NumberMark.chars] using hfront.symm
    obtain rfl := List.append_cancel_right hfront'
    exact (hread (by decide) (by decide)).2
  · obtain ⟨hnumbers, -⟩ := numbers_of_text .standard 4 [' ', '#', '0', '3', '0', '0']
    obtain ⟨front, hfront, hreport, -⟩ := hnumbers _ _ _ _ _ (hblank _) hlarge (by decide)
    have hfront' : front ++ ['#', '0', '3', '0', '0'] = [' '] ++ ['#', '0', '3', '0', '0'] := by
      simpa [NumberMark.chars] using hfront.symm
    obtain rfl := List.append_cancel_right hfront'
    exact hreport (by decide)
  · obtain ⟨-, hlong, -⟩ := numbers_of_text .standard 4 (List.replicate 4301 '0')
    refine (hlong ⟨4301⟩).2 ⟨_, _, _, _, _, .refl, hzeros, ?_, ?_⟩
    · rw [List.length_replicate]
      decide
    · rw [List.length_replicate]

end Asm256
