/-
The lines of an input, and the bytes that are written on them.

A byte is written on a line in decimal digits, with blanks around it and with a
plus sign or without (`LineStream.IsNumeral`).  The lines of a text are read one
after the other until one is accepted:
* `LineStream.byte?_of_isNumeral`, `LineStream.byte?_eq_none_iff` — what a line is accepted as, and
  which lines are passed over;
* `LineStream.values_eq_filterMap` — the values of a text are those of its accepted lines, however
  each line ends;
* `LineStream.Short.readByte_eq` — reading a byte takes the first value off a text with short lines;
* `LineStream.Reaches.readByte_of_ok`, `LineStream.readByte_of_rejected` — what is read from any text,
  by the first of its lines that is not rejected.
-/
import Asm256.Proofs.Machine.Input
import Asm256.Proofs.Source.Spelling

namespace Asm256

/-! ### Blanks at the two ends -/

namespace Text

variable {front core back line : List Char}

/-- Trimming leaves what stands between blanks and has none. -/
theorem trimBlanks_eq (hf : ∀ c ∈ front, isBlank c) (hc : ∀ c ∈ core, isBlank c = false)
    (hb : ∀ c ∈ back, isBlank c) : trimBlanks (front ++ core ++ back) = core := by
  cases core with
  | nil =>
    have hall : ∀ c ∈ front ++ [] ++ back, isBlank c := by
      simp only [List.append_nil, List.mem_append]
      rintro c (h | h)
      · exact hf c h
      · exact hb c h
    rw [trimBlanks, List.dropWhile_eq_nil_iff.2 hall]
    rfl
  | cons c core =>
    have hstart : (front ++ c :: core ++ back).dropWhile isBlank = c :: core ++ back := by
      rw [List.append_assoc, List.dropWhile_append_of_pos hf, List.cons_append,
        List.dropWhile_cons_of_neg (by simp [hc c (by simp)])]
    have hstop : Stops isBlank (c :: core).reverse := by
      intro d hd
      exact hc d (List.mem_reverse.1 (List.mem_of_mem_head? hd))
    rw [trimBlanks, hstart, List.reverse_append,
      Item.dropWhile_append_of_stops (by simpa using hb) hstop, List.reverse_reverse]

/-- What trimming leaves stands between blanks. -/
theorem exists_trimBlanks (line : List Char) : ∃ front back, line = front ++ trimBlanks line ++ back ∧
    (∀ c ∈ front, isBlank c) ∧ ∀ c ∈ back, isBlank c := by
  set rest := line.dropWhile isBlank with hrest
  refine ⟨line.takeWhile isBlank, (rest.reverse.takeWhile isBlank).reverse, ?_, ?_, ?_⟩
  · have hback := congrArg List.reverse
      (List.takeWhile_append_dropWhile (p := isBlank) (l := rest.reverse))
    rw [List.reverse_append, List.reverse_reverse] at hback
    rw [trimBlanks, ← hrest, List.append_assoc, hback, hrest, List.takeWhile_append_dropWhile]
  · exact fun c hc => Item.of_mem_takeWhile hc
  · exact fun c hc => Item.of_mem_takeWhile (List.mem_reverse.1 hc)

/-- Blanks behind a line are trimmed away. -/
theorem trimBlanks_append (hb : ∀ c ∈ back, isBlank c) :
    trimBlanks (line ++ back) = trimBlanks line := by
  unfold trimBlanks
  rw [List.dropWhile_append]
  split
  · next h =>
    rw [List.isEmpty_iff.1 h, List.dropWhile_eq_nil_iff.2 hb]
  · rw [List.reverse_append, List.dropWhile_append_of_pos (by simpa using hb)]

end Text

/-! ### How a byte is written -/

namespace LineStream

/-- The line is a numeral with these digits: they stand behind a plus sign or none, and otherwise
there are blanks only. -/
inductive IsNumeral : List Char → List Char → Prop
  | intro {front plus digits back : List Char} (hfront : ∀ c ∈ front, Text.isBlank c)
      (hplus : plus = [] ∨ plus = ['+']) (hne : digits ≠ [])
      (hdigits : ∀ c ∈ digits, Decimal.isDigit c) (hback : ∀ c ∈ back, Text.isBlank c) :
      IsNumeral (front ++ plus ++ digits ++ back) digits

/-- The line is no numeral, or that of a number that is no byte and not too long to convert. -/
def Rejected (line : List Char) : Prop :=
  ∀ digits, IsNumeral line digits → digits.length ≤ Decimal.maxDigits ∧ 255 < Decimal.value digits

variable {line digits text rest tail : List Char}

theorem isNumeral_iff : IsNumeral line digits ↔
    (Text.trimBlanks line = digits ∨ Text.trimBlanks line = '+' :: digits) ∧ digits ≠ [] ∧
      ∀ c ∈ digits, Decimal.isDigit c := by
  constructor
  · rintro ⟨hfront, hplus, hne, hdigits, hback⟩
    have hblank : ∀ c ∈ digits, Text.isBlank c = false := by
      intro c hc
      have h := Decimal.isDigit_iff.1 (hdigits c hc)
      exact Text.isBlank_eq_false (by omega) (by omega)
    refine ⟨?_, hne, hdigits⟩
    rcases hplus with rfl | rfl
    · rw [List.append_nil, Text.trimBlanks_eq hfront hblank hback]
      exact .inl rfl
    · have hcore : ∀ c ∈ '+' :: digits, Text.isBlank c = false :=
        List.forall_mem_cons.2 ⟨by decide, hblank⟩
      rw [List.append_assoc _ ['+'], List.singleton_append, Text.trimBlanks_eq hfront hcore hback]
      exact .inr rfl
  · rintro ⟨htrim, hne, hdigits⟩
    obtain ⟨front, back, hline, hfront, hback⟩ := Text.exists_trimBlanks line
    rw [hline]
    rcases htrim with htrim | htrim
    · rw [htrim, ← List.append_nil front]
      exact .intro hfront (.inl rfl) hne hdigits hback
    · rw [htrim, ← List.singleton_append, ← List.append_assoc]
      exact .intro hfront (.inr rfl) hne hdigits hback

/-- Digits alone are a numeral. -/
theorem IsNumeral.of_digits (hne : digits ≠ []) (hdigits : ∀ c ∈ digits, Decimal.isDigit c) :
    IsNumeral digits digits := by
  have h : IsNumeral ([] ++ [] ++ digits ++ []) digits :=
    .intro (by simp) (.inl rfl) hne hdigits (by simp)
  simpa using h

/-- A line is the numeral of at most one run of digits. -/
theorem IsNumeral.unique {other : List Char} (h : IsNumeral line digits)
    (ho : IsNumeral line other) : other = digits := by
  obtain ⟨htrim, -, hdigits⟩ := isNumeral_iff.1 h
  obtain ⟨hother, -, hdigits₂⟩ := isNumeral_iff.1 ho
  -- the plus sign is no digit
  have hplus : ¬ (Decimal.isDigit '+' : Prop) := by decide
  rcases htrim with htrim | htrim <;> rcases hother with hother | hother <;> rw [htrim] at hother
  · exact hother.symm
  · exact absurd (hdigits '+' (by simp [hother])) hplus
  · exact absurd (hdigits₂ '+' (by simp [← hother])) hplus
  · exact (List.cons.inj hother).2.symm

/-- What a numeral is accepted as. -/
theorem byte?_of_isNumeral (h : IsNumeral line digits) : byte? line =
    if Decimal.maxDigits < digits.length then .error ⟨digits.length⟩
    else .ok (if Decimal.value digits < 256 then some (.ofNat (Decimal.value digits)) else none) := by
  obtain ⟨htrim, hne, hdigits⟩ := isNumeral_iff.1 h
  unfold byte?
  extract_lets numeral
  -- the sign is taken off, and a digit is no sign
  have hnumeral : numeral = digits := by
    simp only [numeral]
    rcases htrim with htrim | htrim
    · rw [htrim]
      split
      · exact absurd (hdigits '+' (by simp)) (by decide)
      · rfl
    · rw [htrim]
      rfl
  have hall : (digits.isEmpty || !digits.all Decimal.isDigit) = false := by
    simpa [hne] using hdigits
  rw [hnumeral, hall, Decimal.read]
  by_cases hlong : Decimal.maxDigits < digits.length
  · simp only [if_pos hlong, Bool.false_eq_true, if_false]
  · simp only [if_neg hlong, Bool.false_eq_true, if_false]

theorem byte?_of_not_isNumeral (h : ∀ digits, ¬ IsNumeral line digits) : byte? line = .ok none := by
  unfold byte?
  extract_lets numeral
  have hnumeral : Text.trimBlanks line = numeral ∨ Text.trimBlanks line = '+' :: numeral := by
    simp only [numeral]
    split
    · next heq => exact .inr heq
    · exact .inl rfl
  split
  · rfl
  · next hdigits =>
    simp only [Bool.or_eq_true, not_or, Bool.not_eq_true, Bool.not_eq_false'] at hdigits
    refine absurd (isNumeral_iff.2 ⟨hnumeral, ?_, ?_⟩) (h numeral)
    · simpa using hdigits.1
    · simpa using hdigits.2

/-- A line is passed over exactly if it is rejected. -/
theorem byte?_eq_none_iff : byte? line = .ok none ↔ Rejected line := by
  by_cases hex : ∃ digits, IsNumeral line digits
  · obtain ⟨digits, hd⟩ := hex
    have hrejected : Rejected line ↔
        digits.length ≤ Decimal.maxDigits ∧ 255 < Decimal.value digits := by
      refine ⟨fun h => h digits hd, fun h digits' hd' => ?_⟩
      rw [hd.unique hd']
      exact h
    rw [hrejected, byte?_of_isNumeral hd]
    by_cases hlong : Decimal.maxDigits < digits.length
    · rw [if_pos hlong]
      refine iff_of_false (by simp) ?_
      omega
    · by_cases hsmall : Decimal.value digits < 256
      · rw [if_neg hlong, if_pos hsmall]
        refine iff_of_false (by simp) ?_
        omega
      · rw [if_neg hlong, if_neg hsmall]
        refine iff_of_true rfl ?_
        omega
  · have hnot : ∀ digits, ¬ IsNumeral line digits := fun digits h => hex ⟨digits, h⟩
    exact iff_of_true (byte?_of_not_isNumeral hnot) fun digits h => absurd h (hnot digits)

/-! ### The lines of a text -/

/-- The lines of a text, one after the other. -/
def lines (text : List Char) : List (List Char) :=
  match _ : nextLine? text with
  | none => []
  | some (line, rest) => line :: lines rest
termination_by text.length
decreasing_by exact length_lt_of_nextLine? ‹_›

/-- The byte that a line is accepted as, if it is. -/
def accepted? (line : List Char) : Option UInt8 :=
  (byte? line).toOption.join

/-- The bytes that are accepted among the lines of a text. -/
def values (text : List Char) : List UInt8 :=
  (lines text).filterMap accepted?

/-- A text has a first line, which ends at a line feed, or is its only line. -/
theorem exists_line (text : List Char) :
    (∃ line rest, '\n' ∉ line ∧ text = line ++ '\n' :: rest) ∨ '\n' ∉ text := by
  by_cases h : '\n' ∈ text
  · obtain ⟨line, rest, htext, hn⟩ := List.eq_append_cons_of_mem h
    exact .inl ⟨line, rest, hn, htext⟩
  · exact .inr h

/-- The line without the carriage returns at its end. -/
def withoutReturns (line : List Char) : List Char :=
  (line.reverse.dropWhile (· == '\r')).reverse

theorem nextLine?_line (hn : '\n' ∉ line) :
    nextLine? (line ++ '\n' :: rest) = some (withoutReturns line, rest) := by
  have hall : ∀ c ∈ line, (c != '\n') = true := fun c hc => by
    simpa using ne_of_mem_of_not_mem hc hn
  have hstop : Text.Stops (· != '\n') ('\n' :: rest) := by
    simp [Text.Stops]
  unfold nextLine?
  rw [if_neg (by simp), Item.takeWhile_append_of_stops hall hstop,
    Item.dropWhile_append_of_stops hall hstop]
  rfl

theorem nextLine?_last (hn : '\n' ∉ line) (hne : line ≠ []) :
    nextLine? line = some (withoutReturns line, []) := by
  have hall : ∀ c ∈ line, (c != '\n') = true := fun c hc => by
    simpa using ne_of_mem_of_not_mem hc hn
  unfold nextLine?
  rw [if_neg (by simpa using hne), List.takeWhile_eq_self_iff.2 hall, List.dropWhile_eq_nil_iff.2 hall]
  rfl

/-- Only what is between the blanks decides on a line. -/
theorem byte?_congr {line' : List Char} (h : Text.trimBlanks line = Text.trimBlanks line') :
    byte? line = byte? line' := by
  unfold byte?
  rw [h]

theorem byte?_append_blanks {back : List Char} (hb : ∀ c ∈ back, Text.isBlank c) :
    byte? (line ++ back) = byte? line :=
  byte?_congr (Text.trimBlanks_append hb)

/-- Carriage returns are blank, so they do not decide on a line. -/
theorem byte?_withoutReturns (line : List Char) : byte? (withoutReturns line) = byte? line := by
  have hline : withoutReturns line ++ (line.reverse.takeWhile (· == '\r')).reverse = line := by
    rw [withoutReturns, ← List.reverse_append, List.takeWhile_append_dropWhile, List.reverse_reverse]
  have hblank : ∀ c ∈ (line.reverse.takeWhile (· == '\r')).reverse, Text.isBlank c := by
    intro c hc
    have hc' := Item.of_mem_takeWhile (List.mem_reverse.1 hc)
    rw [eq_of_beq hc']
    decide
  conv_rhs => rw [← hline, byte?_append_blanks hblank]

theorem accepted?_withoutReturns (line : List Char) :
    accepted? (withoutReturns line) = accepted? line := by
  rw [accepted?, accepted?, byte?_withoutReturns]

/-! ### The values of a text -/

theorem lines_of_nextLine? (h : nextLine? text = some (line, rest)) :
    lines text = line :: lines rest := by
  rw [lines]
  split
  · next hnone =>
    rw [hnone] at h
    cases h
  · next line' rest' hsome =>
    rw [hsome] at h
    cases h
    rfl

theorem lines_of_nextLine?_none (h : nextLine? text = none) : lines text = [] := by
  rw [lines]
  split
  · rfl
  · next hsome =>
    rw [hsome] at h
    cases h

theorem values_of_nextLine? (h : nextLine? text = some (line, rest)) :
    values text = (accepted? line).toList ++ values rest := by
  rw [values, lines_of_nextLine? h, List.filterMap_cons]
  cases accepted? line <;> rfl

theorem values_of_nextLine?_none (h : nextLine? text = none) : values text = [] := by
  rw [values, lines_of_nextLine?_none h]
  rfl

theorem values_line (hn : '\n' ∉ line) :
    values (line ++ '\n' :: rest) = (accepted? line).toList ++ values rest := by
  rw [values_of_nextLine? (nextLine?_line hn), accepted?_withoutReturns]

theorem values_last (hn : '\n' ∉ line) : values line = (accepted? line).toList := by
  by_cases hne : line = []
  · subst hne
    exact values_of_nextLine?_none rfl
  · rw [values_of_nextLine? (nextLine?_last hn hne), accepted?_withoutReturns,
      values_of_nextLine?_none rfl, List.append_nil]

/-- How a line may end: in a line feed, with a carriage return in front of it or without. -/
def IsEnding (ending : List Char) : Prop :=
  ending = ['\n'] ∨ ending = ['\r', '\n']

/-- **Only the accepted lines give values**, whatever lines there are between them and however each
of them ends. -/
theorem values_eq_filterMap {rows : List (List Char × List Char)} {last : List Char}
    (hrows : ∀ row ∈ rows, '\n' ∉ row.1 ∧ IsEnding row.2) (hlast : '\n' ∉ last) :
    values (rows.flatMap (fun row => row.1 ++ row.2) ++ last) =
      (rows.map Prod.fst ++ [last]).filterMap accepted? := by
  induction rows with
  | nil =>
    rw [List.flatMap_nil, List.nil_append, values_last hlast, List.map_nil, List.nil_append,
      List.filterMap_cons, List.filterMap_nil]
    cases accepted? last <;> rfl
  | cons row rows ih =>
    obtain ⟨⟨hn, hending⟩, hrest⟩ := List.forall_mem_cons.1 hrows
    obtain ⟨line, ending⟩ := row
    have hfirst : ∀ text, values (line ++ ending ++ text) = (accepted? line).toList ++ values text := by
      intro text
      rcases hending with rfl | rfl
      · rw [List.append_assoc]
        exact values_line hn
      · have hn' : '\n' ∉ line ++ ['\r'] := by
          simpa using hn
        have hreturn : accepted? (line ++ ['\r']) = accepted? line := by
          rw [accepted?, accepted?, byte?_append_blanks (by simp; decide)]
        rw [← hreturn, ← values_line hn']
        simp
    rw [List.flatMap_cons, List.append_assoc, hfirst, ih hrest, List.map_cons, List.cons_append,
      List.filterMap_cons]
    cases accepted? line <;> rfl

/-- A short text has short lines. -/
theorem Short.of_length (h : text.length ≤ Decimal.maxDigits) : Short text := fun _ hline _ =>
  (List.countP_le_length.trans hline.length_le).trans h

/-- **Reading takes the first value off a text** with short lines, and fails only when there is
none. -/
theorem Short.readByte_eq (h : Short text) :
    (LineStream.readByte text).1 =
        (values text).head?.elim (.error (.fault .inputExhausted)) .ok ∧
      values (LineStream.readByte text).2 = (values text).tail := by
  fun_induction LineStream.readByte text with
  | case1 text hnone =>
    rw [values_of_nextLine?_none hnone]
    exact ⟨rfl, values_of_nextLine?_none rfl⟩
  | case2 text line rest hl e he =>
    -- the line would have too many digits
    obtain ⟨hline, hn, -⟩ := nextLine?_eq_some hl
    exact absurd (h line hline hn) (Nat.not_le.2 (lt_countP_of_byte? he))
  | case3 text line rest hl b hb =>
    have hvalues : values text = b :: values rest := by
      rw [values_of_nextLine? hl, accepted?, hb]
      rfl
    rw [hvalues]
    exact ⟨rfl, rfl⟩
  | case4 text line rest hl hb ih =>
    have hvalues : values text = values rest := by
      rw [values_of_nextLine? hl, accepted?, hb]
      rfl
    rw [hvalues]
    exact ih (h.of_suffix (nextLine?_eq_some hl).2.2)

theorem Short.readByte_of_values {v : UInt8} {vs : List UInt8} (h : Short text)
    (hv : values text = v :: vs) :
    (LineStream.readByte text).1 = .ok v ∧ values (LineStream.readByte text).2 = vs := by
  obtain ⟨hread, hrest⟩ := h.readByte_eq
  rw [hv] at hread hrest
  exact ⟨hread, hrest⟩

/-! ### The line that reading gets to -/

/-- Reading the text gets to the line, over rejected lines, and `rest` is behind it. -/
inductive Reaches : List Char → List Char → List Char → Prop
  | here {line rest : List Char} (hn : '\n' ∉ line) : Reaches (line ++ '\n' :: rest) line rest
  | last {line : List Char} (hn : '\n' ∉ line) : Reaches line line []
  | skip {skipped text line rest : List Char} (hn : '\n' ∉ skipped) (hskipped : Rejected skipped)
      (h : Reaches text line rest) : Reaches (skipped ++ '\n' :: text) line rest

theorem readByte_line (hn : '\n' ∉ line) : readByte (line ++ '\n' :: rest) =
    match byte? line with
    | .error e => (.error (.tooLong e), rest)
    | .ok (some b) => (.ok b, rest)
    | .ok none => readByte rest := by
  rw [readByte.eq_def]
  split
  · next hnone =>
    rw [nextLine?_line hn] at hnone
    cases hnone
  · next hsome =>
    rw [nextLine?_line hn] at hsome
    cases hsome
    rcases hb : byte? line with e | _ | b <;> simp only [byte?_withoutReturns, hb]

theorem readByte_nil : readByte [] = (.error (.fault .inputExhausted), []) := by
  rw [readByte.eq_def]
  rfl

theorem readByte_last (hn : '\n' ∉ line) : readByte line =
    match byte? line with
    | .error e => (.error (.tooLong e), [])
    | .ok (some b) => (.ok b, [])
    | .ok none => (.error (.fault .inputExhausted), []) := by
  by_cases hne : line = []
  · subst hne
    exact readByte_nil
  · rw [readByte.eq_def]
    split
    · next hnone =>
      rw [nextLine?_last hn hne] at hnone
      cases hnone
    · next hsome =>
      rw [nextLine?_last hn hne] at hsome
      cases hsome
      rcases hb : byte? line with e | _ | b <;> simp only [byte?_withoutReturns, hb, readByte_nil]

/-- **The line that is reached is read** if it is not rejected, and exactly it is taken. -/
theorem Reaches.readByte_of_ok {b : UInt8} (h : Reaches text line rest)
    (hb : byte? line = .ok (some b)) : readByte text = (.ok b, rest) := by
  induction h with
  | here hn => rw [readByte_line hn, hb]
  | last hn => rw [readByte_last hn, hb]
  | skip hn hskipped _ ih =>
    rw [readByte_line hn, byte?_eq_none_iff.2 hskipped]
    exact ih hb

theorem Reaches.readByte_of_error {e : Decimal.TooLong} (h : Reaches text line rest)
    (he : byte? line = .error e) : readByte text = (.error (.tooLong e), rest) := by
  induction h with
  | here hn => rw [readByte_line hn, he]
  | last hn => rw [readByte_last hn, he]
  | skip hn hskipped _ ih =>
    rw [readByte_line hn, byte?_eq_none_iff.2 hskipped]
    exact ih he

/-- **All of the input is taken** if all of its lines are rejected. -/
theorem readByte_of_rejected (text : List Char)
    (h : ∀ line rest, Reaches text line rest → Rejected line) :
    readByte text = (.error (.fault .inputExhausted), []) := by
  induction hlen : text.length using Nat.strongRecOn generalizing text with
  | ind n ih =>
    rcases exists_line text with ⟨line, rest, hn, rfl⟩ | hn
    · have hline := h line rest (.here hn)
      rw [readByte_line hn, byte?_eq_none_iff.2 hline]
      refine ih rest.length ?_ rest (fun line' rest' h' => h line' rest' (.skip hn hline h')) rfl
      rw [← hlen, List.length_append, List.length_cons]
      omega
    · rw [readByte_last hn, byte?_eq_none_iff.2 (h text [] (.last hn))]

end LineStream

end Asm256
