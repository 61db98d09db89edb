/-
Lines that are read and written.

A text falls into its rows (`LineStream.rows`): each ends behind its line feed, and the last one may
end without one.  Reading takes the rows off the text one after the other, and what it gives of a row
is the row without the carriage returns and line feeds at its end:
* `LineStream.line_induction` — induction on a text, line by line;
* `LineStream.flatten_rows`, `LineStream.isRow_of_mem_rows`, `LineStream.ends_of_mem_dropLast_rows` —
  what the rows of a text are;
* `LineStream.reads_eq`, `LineStream.lines_eq` — what is read, and what is left, after any number of
  reads;
* `LineStream.lines_writeLines` — lines that are written are read back.

The main result is `LineStream.line_round_trip`.
-/
import Asm256.Proofs.Machine.Lines

namespace Asm256.LineStream

variable {line text rest : List Char}

/-! ### Texts line by line -/

/-- A text is empty, or it is its only line, or it is a line, a line feed and a text. -/
@[elab_as_elim]
theorem line_induction {motive : List Char → Prop} (nil : motive [])
    (last : ∀ line, '\n' ∉ line → line ≠ [] → motive line)
    (line : ∀ line rest, '\n' ∉ line → motive rest → motive (line ++ '\n' :: rest))
    (text : List Char) : motive text := by
  induction hlen : text.length using Nat.strongRecOn generalizing text with
  | ind n ih =>
    rcases exists_line text with ⟨first, rest, hn, rfl⟩ | hn
    · have hlt : rest.length < n := by
        rw [← hlen, List.length_append, List.length_cons]
        omega
      exact line first rest hn (ih rest.length hlt rest rfl)
    · by_cases hne : text = []
      · rw [hne]
        exact nil
      · exact last text hn hne

theorem lines_nil : lines [] = [] :=
  lines_of_nextLine?_none rfl

theorem lines_line (hn : '\n' ∉ line) :
    lines (line ++ '\n' :: rest) = withoutReturns line :: lines rest :=
  lines_of_nextLine? (nextLine?_line hn)

theorem lines_last (hn : '\n' ∉ line) (hne : line ≠ []) : lines line = [withoutReturns line] := by
  rw [lines_of_nextLine? (nextLine?_last hn hne), lines_nil]

/-! ### The rows of a text -/

/-- The lines of a text with what ends them. -/
def rows : List Char → List (List Char)
  | [] => []
  | c :: text =>
    if c = '\n' then [c] :: rows text
    else match rows text with
      | [] => [[c]]
      | row :: later => (c :: row) :: later

/-- A line with its line feed, or what stands behind the last line feed of a text. -/
def IsRow (row : List Char) : Prop :=
  ∃ line, '\n' ∉ line ∧ (row = line ++ ['\n'] ∨ row = line ∧ line ≠ [])

theorem rows_line (hn : '\n' ∉ line) :
    rows (line ++ '\n' :: rest) = (line ++ ['\n']) :: rows rest := by
  induction line with
  | nil => rw [List.nil_append, rows, if_pos rfl, List.nil_append]
  | cons c line ih =>
    obtain ⟨hc, hline⟩ := not_or.1 (mt List.mem_cons.2 hn)
    rw [List.cons_append, rows, if_neg (Ne.symm hc), ih hline]
    rfl

theorem rows_last (hn : '\n' ∉ line) (hne : line ≠ []) : rows line = [line] := by
  induction line with
  | nil => exact absurd rfl hne
  | cons c line ih =>
    obtain ⟨hc, hline⟩ := not_or.1 (mt List.mem_cons.2 hn)
    rw [rows, if_neg (Ne.symm hc)]
    by_cases hnil : line = []
    · subst hnil
      rfl
    · rw [ih hline hnil]

theorem flatten_rows (text : List Char) : (rows text).flatten = text := by
  induction text using line_induction with
  | nil => rfl
  | last line hn hne => rw [rows_last hn hne, List.flatten_singleton]
  | line line rest hn ih =>
    rw [rows_line hn, List.flatten_cons, ih, List.append_assoc, List.singleton_append]

theorem isRow_of_mem_rows : ∀ row ∈ rows text, IsRow row := by
  induction text using line_induction with
  | nil => exact fun row hrow => absurd hrow List.not_mem_nil
  | last line hn hne =>
    rw [rows_last hn hne]
    exact List.forall_mem_singleton.2 ⟨line, hn, .inr ⟨rfl, hne⟩⟩
  | line line rest hn ih =>
    rw [rows_line hn]
    exact List.forall_mem_cons.2 ⟨⟨line, hn, .inl rfl⟩, ih⟩

/-- Only the last row may end without a line feed. -/
theorem ends_of_mem_dropLast_rows : ∀ row ∈ (rows text).dropLast, row.getLast? = some '\n' := by
  induction text using line_induction with
  | nil => exact fun row hrow => absurd hrow List.not_mem_nil
  | last line hn hne =>
    rw [rows_last hn hne]
    exact fun row hrow => absurd hrow List.not_mem_nil
  | line line rest hn ih =>
    rw [rows_line hn]
    by_cases hrest : rows rest = []
    · rw [hrest]
      exact fun row hrow => absurd hrow List.not_mem_nil
    · rw [List.dropLast_cons_of_ne_nil hrest]
      exact List.forall_mem_cons.2 ⟨List.getLast?_concat, ih⟩

theorem length_rows (text : List Char) : (rows text).length =
    text.count '\n' + if text ≠ [] ∧ text.getLast? ≠ some '\n' then 1 else 0 := by
  induction text using line_induction with
  | nil => rfl
  | last line hn hne =>
    have hlast : line.getLast? ≠ some '\n' := fun h => hn (List.mem_of_getLast? h)
    rw [rows_last hn hne, List.count_eq_zero.2 hn, if_pos ⟨hne, hlast⟩]
    rfl
  | line line rest hn ih =>
    have hends : (line ++ '\n' :: rest ≠ [] ∧ (line ++ '\n' :: rest).getLast? ≠ some '\n') ↔
        rest ≠ [] ∧ rest.getLast? ≠ some '\n' := by
      cases rest with
      | nil => simp
      | cons c rest => simp [List.getLast?_append, List.getLast?_cons_cons]
    rw [rows_line hn, List.length_cons, ih, List.count_append, List.count_cons_self,
      List.count_eq_zero.2 hn]
    simp only [hends]
    omega

/-! ### What is read of a row -/

/-- A row without the carriage returns and line feeds at its end. -/
def withoutEnd (row : List Char) : List Char :=
  (row.reverse.dropWhile fun c => c == '\r' || c == '\n').reverse

/-- In a line there are only carriage returns to drop. -/
theorem withoutEnd_eq (hn : '\n' ∉ line) : withoutEnd line = withoutReturns line := by
  have hdrop : ∀ cs : List Char, '\n' ∉ cs →
      cs.dropWhile (fun c => c == '\r' || c == '\n') = cs.dropWhile (· == '\r') := by
    intro cs hcs
    induction cs with
    | nil => rfl
    | cons c cs ih =>
      obtain ⟨hc, hcs⟩ := not_or.1 (mt List.mem_cons.2 hcs)
      have hfeed : (c == '\n') = false := beq_false_of_ne (Ne.symm hc)
      rw [List.dropWhile_cons, List.dropWhile_cons, hfeed, Bool.or_false, ih hcs]
  rw [withoutEnd, withoutReturns, hdrop line.reverse (mt List.mem_reverse.1 hn)]

theorem withoutEnd_concat (hn : '\n' ∉ line) :
    withoutEnd (line ++ ['\n']) = withoutReturns line := by
  rw [← withoutEnd_eq hn, withoutEnd, List.reverse_concat, List.dropWhile_cons_of_pos (by decide)]
  rfl

theorem lines_eq (text : List Char) : lines text = (rows text).map withoutEnd := by
  induction text using line_induction with
  | nil => exact lines_nil
  | last line hn hne =>
    rw [lines_last hn hne, rows_last hn hne, List.map_singleton, withoutEnd_eq hn]
  | line line rest hn ih =>
    rw [lines_line hn, rows_line hn, List.map_cons, withoutEnd_concat hn, ih]

/-- What a number of reads give, one after the other, and the text that is left behind them. -/
def reads : Nat → List Char → List (Option (List Char)) × List Char
  | 0, text => ([], text)
  | k + 1, text => match nextLine? text with
    | none => ((reads k text).1.cons none, (reads k text).2)
    | some (line, rest) => ((reads k rest).1.cons (some line), (reads k rest).2)

/-- At the end of the text there is nothing to read. -/
theorem reads_nil (k : Nat) : reads k [] = (List.replicate k none, []) := by
  induction k with
  | zero => rfl
  | succ k ih => rw [reads, show nextLine? [] = none from rfl, ih]; rfl

/-- **Each read takes one row off the text** and gives its line, until there are no more. -/
theorem reads_eq (k : Nat) (text : List Char) : reads k text =
    (((rows text).take k).map (fun row => some (withoutEnd row)) ++
      List.replicate (k - (rows text).length) none, ((rows text).drop k).flatten) := by
  induction text using line_induction generalizing k with
  | nil => simpa [rows] using reads_nil k
  | last line hn hne =>
    cases k with
    | zero => simp [reads, rows_last hn hne]
    | succ k => simp [reads, rows_last hn hne, nextLine?_last hn hne, reads_nil, withoutEnd_eq hn]
  | line line rest hn ih =>
    cases k with
    | zero => simp [reads, flatten_rows]
    | succ k => simp [reads, rows_line hn, nextLine?_line hn, ih k, withoutEnd_concat hn]

/-! ### Lines that are written -/

/-- A line as it is read: without a line feed in it or a carriage return at its end. -/
def IsLine (line : List Char) : Prop :=
  '\n' ∉ line ∧ line.getLast? ≠ some '\r'

theorem withoutReturns_eq_self (h : line.getLast? ≠ some '\r') : withoutReturns line = line := by
  rw [withoutReturns, List.reverse_eq_iff]
  rw [← List.head?_reverse] at h
  cases hline : line.reverse with
  | nil => rfl
  | cons c cs =>
    rw [hline, List.head?_cons, Ne, Option.some_inj] at h
    rw [List.dropWhile_cons_of_neg (by simpa using h)]

theorem isLine_withoutReturns (hn : '\n' ∉ line) : IsLine (withoutReturns line) := by
  constructor
  · intro h
    exact hn (List.mem_reverse.1 ((List.dropWhile_sublist _).subset (List.mem_reverse.1 h)))
  · intro h
    rw [withoutReturns, List.getLast?_reverse] at h
    have hstop := List.head?_dropWhile_not (· == '\r') line.reverse
    rw [h] at hstop
    exact absurd hstop (by decide)

theorem isLine_of_mem_lines : ∀ line ∈ lines text, IsLine line := by
  induction text using line_induction with
  | nil =>
    rw [lines_nil]
    exact fun line hline => absurd hline List.not_mem_nil
  | last line hn hne =>
    rw [lines_last hn hne]
    exact List.forall_mem_singleton.2 (isLine_withoutReturns hn)
  | line line rest hn ih =>
    rw [lines_line hn]
    exact List.forall_mem_cons.2 ⟨isLine_withoutReturns hn, ih⟩

/-- The text of lines that are written one after the other. -/
def writeLines (rows : List (List Char)) : List Char :=
  rows.flatMap fun line => (written (String.ofList line)).toList

theorem writeLines_cons (line : List Char) (rows : List (List Char)) :
    writeLines (line :: rows) = line ++ '\n' :: writeLines rows := by
  rw [writeLines, List.flatMap_cons, ← writeLines, written, String.toList_append,
    String.toList_ofList, List.append_assoc]
  rfl

/-- **Lines that are written are read back.** -/
theorem lines_writeLines {rows : List (List Char)} (h : ∀ line ∈ rows, IsLine line) :
    lines (writeLines rows) = rows := by
  induction rows with
  | nil => exact lines_nil
  | cons line rows ih =>
    obtain ⟨⟨hn, hreturn⟩, hrows⟩ := List.forall_mem_cons.1 h
    rw [writeLines_cons, lines_line hn, withoutReturns_eq_self hreturn, ih hrows]

/-- What is read and written again is the text itself exactly if every row of it ends in a line feed
alone. -/
theorem writeLines_lines_eq_iff (text : List Char) : writeLines (lines text) = text ↔
    ∀ row ∈ rows text, ∃ line, row = line ++ ['\n'] ∧ line.getLast? ≠ some '\r' := by
  induction text using line_induction with
  | nil =>
    rw [lines_nil]
    exact iff_of_true rfl fun row hrow => absurd hrow List.not_mem_nil
  | last line hn hne =>
    rw [lines_last hn hne, rows_last hn hne, writeLines_cons]
    refine iff_of_false (fun h => hn ?_) fun h => ?_
    · rw [← h]
      simp
    · obtain ⟨line', hline, -⟩ := h line (List.mem_singleton_self line)
      exact hn (hline ▸ by simp)
  | line line rest hn ih =>
    have hline : withoutReturns line = line ↔
        ∃ line', line ++ ['\n'] = line' ++ ['\n'] ∧ line'.getLast? ≠ some '\r' := by
      constructor
      · exact fun h => ⟨line, rfl, h ▸ (isLine_withoutReturns hn).2⟩
      · rintro ⟨line', h, hreturn⟩
        rw [List.append_left_inj] at h
        exact h ▸ withoutReturns_eq_self hreturn
    have happend : withoutReturns line ++ '\n' :: writeLines (lines rest) = line ++ '\n' :: rest ↔
        withoutReturns line = line ∧ writeLines (lines rest) = rest := by
      constructor
      · intro h
        -- the two texts have one first row
        have hrows := congrArg rows h
        rw [rows_line (isLine_withoutReturns hn).1, rows_line hn] at hrows
        have hfirst := List.append_left_inj _ |>.1 (List.cons.inj hrows).1
        rw [hfirst] at h
        exact ⟨hfirst, (List.cons.inj (List.append_cancel_left h)).2⟩
      · rintro ⟨hfirst, hrest⟩
        rw [hfirst, hrest]
    rw [lines_line hn, rows_line hn, writeLines_cons, List.forall_mem_cons, ← ih, ← hline, happend]

/-- **Reading lines and writing them are inverse.**  A text falls into its rows; the reads take them
off the text from left to right, one by one, and give their lines.  These are written to a text that
has just them as its lines, and this is the text that was read exactly if every row of it ends in a
line feed with no carriage return in front of it. -/
theorem line_round_trip (text : List Char) :
    ((rows text).flatten = text ∧ (∀ row ∈ rows text, IsRow row) ∧
      (∀ row ∈ (rows text).dropLast, row.getLast? = some '\n') ∧
      ∀ k, reads k text = (((rows text).take k).map (fun row => some (withoutEnd row)) ++
        List.replicate (k - (rows text).length) none, ((rows text).drop k).flatten)) ∧
    lines text = (rows text).map withoutEnd ∧
    (∀ line ∈ lines text, '\n' ∉ line ∧ line.getLast? ≠ some '\r') ∧
    (lines text).length = text.count '\n' +
      (if text ≠ [] ∧ text.getLast? ≠ some '\n' then 1 else 0) ∧
    lines (writeLines (lines text)) = lines text ∧
    (writeLines (lines text) = text ↔
      ∀ row ∈ rows text, ∃ line, row = line ++ ['\n'] ∧ line.getLast? ≠ some '\r') := by
  refine ⟨⟨flatten_rows text, isRow_of_mem_rows, ends_of_mem_dropLast_rows,
    fun k => reads_eq k text⟩, lines_eq text, isLine_of_mem_lines, ?_,
    lines_writeLines isLine_of_mem_lines, writeLines_lines_eq_iff text⟩
  rw [lines_eq, List.length_map, length_rows]

end Asm256.LineStream
