/-
Sessions that run a program.

A session that is asked for no files and no listing assembles its source and runs the program, just
as the library does with the text of the source, line ends aside:
* `Text.shortNumbers_normalizeNewlines` — line ends do not matter to the numbers of a text;
* `exists_source_of_shortNumbers` — with short numbers only errors of the program are reported;
* `exists_assembly_of_other_width` — tab widths do not matter to the image;
* `Machine.run_add`, `Machine.Bounded.run` — a run that has ended stays as it is, stays within the
  bound of its pc, and fails only by a fault;
* `Session.report`, `Session.Dumps` — what is said of an error, and of the machine at the end;
* `World.run_runImage` — what a session shows that runs an image;
* `World.session_eq` — a session that only runs a program assembles the text of its source.

The main result is `session_runs_the_program`.
-/
import Asm256.CommandLine.World
import Asm256.Proofs.CommandLine.Plain
import Asm256.Proofs.CommandLine.Reading
import Asm256.Proofs.Machine.Calls
import Asm256.Proofs.Machine.Lines
import Asm256.Proofs.Source.Locations
import Asm256.Proofs.Source.TabWidth
import Asm256.Proofs.Text.Utf8

namespace Asm256

/-! ### Numbers and line ends -/

namespace Text

variable {text run : List Char}

/-- No run of digits in the text is longer than the numerals that are converted. -/
def ShortNumbers (text : List Char) : Prop :=
  ∀ run, run <:+: text → (∀ c ∈ run, Decimal.isDigit c) → run.length ≤ Decimal.maxDigits

theorem ShortNumbers.of_length (h : text.length ≤ Decimal.maxDigits) : ShortNumbers text :=
  fun _ hrun _ => hrun.length_le.trans h

/-- What has no line feeds stands in front of a text already before its line ends are replaced. -/
theorem prefix_of_prefix_normalizeNewlines (h : run <+: normalizeNewlines text)
    (hn : '\n' ∉ run) : run <+: text := by
  induction run generalizing text with
  | nil => exact List.nil_prefix
  | cons r run ih =>
    -- `r` is no line feed, so that it stands for itself
    obtain ⟨hr, hrun⟩ := not_or.1 (mt List.mem_cons.2 hn)
    fun_cases normalizeNewlines text with
    | case1 rest =>
      rw [normalizeNewlines, List.cons_prefix_cons] at h
      exact absurd h.1.symm hr
    | case2 rest hrest =>
      rw [normalizeNewlines, List.cons_prefix_cons] at h
      · exact absurd h.1.symm hr
      · exact hrest
    | case3 c rest hc hc' =>
      rw [normalizeNewlines, List.cons_prefix_cons] at h
      · rw [h.1]
        exact (List.prefix_cons_inj c).2 (ih h.2 hrun)
      · exact hc
      · exact hc'
    | case4 => exact h

theorem exists_of_suffix_normalizeNewlines {back : List Char}
    (h : back <:+ normalizeNewlines text) : ∃ cs, cs <:+ text ∧ normalizeNewlines cs = back := by
  fun_induction normalizeNewlines text with
  | case1 rest ih =>
    rcases List.suffix_cons_iff.1 h with rfl | hrest
    · exact ⟨_, List.suffix_refl _, rfl⟩
    · obtain ⟨cs, hcs, rfl⟩ := ih hrest
      exact ⟨cs, hcs.trans ((List.suffix_cons _ _).trans (List.suffix_cons _ _)), rfl⟩
  | case2 rest hlone ih =>
    rcases List.suffix_cons_iff.1 h with rfl | hrest
    · exact ⟨_, List.suffix_refl _, normalizeNewlines.eq_2 rest hlone⟩
    · obtain ⟨cs, hcs, rfl⟩ := ih hrest
      exact ⟨cs, hcs.trans (List.suffix_cons _ _), rfl⟩
  | case3 c rest hpair hlone ih =>
    rcases List.suffix_cons_iff.1 h with rfl | hrest
    · exact ⟨_, List.suffix_refl _, normalizeNewlines.eq_3 c rest hpair hlone⟩
    · obtain ⟨cs, hcs, rfl⟩ := ih hrest
      exact ⟨cs, hcs.trans (List.suffix_cons _ _), rfl⟩
  | case4 => exact ⟨[], List.nil_suffix, (List.suffix_nil.1 h).symm⟩

/-- **Line ends do not matter to the numbers of a text.** -/
theorem shortNumbers_normalizeNewlines (h : ShortNumbers text) :
    ShortNumbers (normalizeNewlines text) := by
  intro run hrun hdigits
  obtain ⟨back, hfront, hback⟩ := List.infix_iff_prefix_suffix.1 hrun
  obtain ⟨cs, hcs, rfl⟩ := exists_of_suffix_normalizeNewlines hback
  have hn : '\n' ∉ run := fun hmem => absurd (hdigits _ hmem) (by decide)
  exact h run ((prefix_of_prefix_normalizeNewlines hfront hn).isInfix.trans hcs.isInfix) hdigits

end Text

/-- Where the reading of a text stops at a number that is too long, its digits stand in the text. -/
theorem Piece.exists_number_of_cut {text : List Char} {e : Decimal.TooLong}
    (h : (Piece.cut text).2 = some (.tooLong e)) : ∃ digits, digits <:+: text ∧
      (∀ c ∈ digits, Decimal.isDigit c) ∧ Decimal.maxDigits < digits.length := by
  fun_induction Piece.cut text with
  | case1 => cases h
  | case2 c cs refusal hread =>
    obtain rfl : refusal = .tooLong e := Option.some.inj h
    cases Item.misspelling_of_read hread with
    | @tooLong mark digits rest _ hnumber hlong =>
      refine ⟨digits, ?_, hnumber.isDigit, hlong⟩
      rw [hnumber.eq]
      exact List.infix_append _ _ _
  | case3 c cs r hread pieces refusal hcut ih =>
    rw [hcut] at ih
    obtain ⟨digits, hdigits, hnumber⟩ := ih h
    refine ⟨digits, hdigits.trans ?_, hnumber⟩
    rw [← Item.text_append_rest hread]
    exact (List.suffix_append _ _).isInfix

/-- **With short numbers only errors of the program are reported.** -/
theorem exists_source_of_shortNumbers {tree : SignatureTree} {w : Nat} {text : List Char}
    {e : AssemblyError} (hshort : Text.ShortNumbers text) (h : assemble tree w text = .error e) :
    ∃ s, e = .source s := by
  rcases exists_error_of_assemble h with hs | ⟨n, hcut, rfl⟩
  · exact hs
  · obtain ⟨digits, hpart, hdigits, hlong⟩ := Piece.exists_number_of_cut hcut
    exact absurd (hshort digits hpart hdigits) (Nat.not_le.2 hlong)

/-! ### Tab widths -/

section

variable {width : Nat} {N : List Char}

/-- A text that is assembled with one tab width is so with any other, to the same image. -/
theorem exists_assembly_of_other_width {assembly : Assembly}
    (h : assemble .standard width N = .ok assembly) (w : Nat) :
    ∃ assembly', assemble .standard w N = .ok assembly' ∧ assembly'.image = assembly.image := by
  have hsame : Results (AssemblyError.Matches (Position.Beside width w N))
      (Assembly.Matches (Position.Beside width w N)) (assemble .standard width N)
      (assemble .standard w N) := assemble_matches (TokenStream.ofText_matches width w N)
  rw [h] at hsame
  generalize hr : assemble .standard w N = r at hsame
  cases hsame with
  | ok hmatches => exact ⟨_, rfl, hmatches.image_eq⟩

/-- A text that is rejected with one tab width is so with any other. -/
theorem exists_source_of_other_width {e : AssemblyError} (hshort : Text.ShortNumbers N)
    (h : assemble .standard width N = .error e) (w : Nat) :
    ∃ s, assemble .standard w N = .error (.source s) := by
  cases hr : assemble .standard w N with
  | ok assembly =>
    obtain ⟨_, hassembly, -⟩ := exists_assembly_of_other_width hr width
    cases h.symm.trans hassembly
  | error e' =>
    obtain ⟨s, rfl⟩ := exists_source_of_shortNumbers hshort hr
    exact ⟨s, rfl⟩

end

/-! ### Runs that end -/

namespace Machine

variable {m s : Machine} {t : Trap} {ending : Ending} {codeSize steps : Nat}

/-- **A run that has ended stays as it is**, whatever the limit. -/
theorem run_add {limit : Nat} (h : m.run limit = (ending, s)) (hended : ending ≠ .running)
    (more : Nat) : m.run (limit + more) = (ending, s) := by
  induction limit generalizing m with
  | zero =>
    rw [run] at h
    by_cases hh : m.halted = true
    · rw [if_pos hh] at h
      cases more with
      | zero => rw [Nat.add_zero, run, if_pos hh, h]
      | succ more => rw [Nat.zero_add, run, if_pos hh, h]
    · rw [if_neg hh] at h
      cases h
      exact absurd rfl hended
  | succ limit ih =>
    rw [run] at h
    rw [Nat.add_right_comm, run]
    split at h
    · next hh => rw [if_pos hh, h]
    · next hh =>
      rw [if_neg hh]
      cases hs : m.step with
      | ok op m' =>
        rw [hs] at h
        exact ih h
      | error t m' =>
        rw [hs] at h
        exact h

/-- **A run on short lines stays within the bound of its pc, and fails only by a fault**, which is
right about the machine. -/
theorem Bounded.run {limit : Nat} (hm : Bounded codeSize (maxPc codeSize) steps m)
    (h : m.run limit = (ending, s)) :
    s.pc ≤ maxPc codeSize ∧ ∀ t, ending = .failed t → t.Justified codeSize := by
  induction limit generalizing m steps with
  | zero =>
    rw [Machine.run] at h
    split at h <;> cases h <;> exact ⟨hm.pc_le, nofun⟩
  | succ limit ih =>
    rw [Machine.run] at h
    split at h
    · cases h
      exact ⟨hm.pc_le, nofun⟩
    · cases hs : m.step with
      | ok op m' =>
        rw [hs] at h
        exact ih (hm.step_ok hs) h
      | error t' m' =>
        rw [hs] at h
        cases h
        obtain ⟨hbounded, hjustified⟩ := hm.step_error hs
        refine ⟨hbounded.pc_le, ?_⟩
        rintro t ⟨⟩
        exact hjustified

theorem bounded_ofImage (i : Image) {input : List Char} (hshort : LineStream.Short input) :
    Bounded i.codeSize (maxPc i.codeSize) 0 (ofImage i input) :=
  ⟨rfl, Nat.zero_le _, rfl, hshort⟩

end Machine

/-! ### Reports -/

namespace Session

/-- Advice as it stands behind a message. -/
def advice : Option String → String
  | none | some "" => ""
  | some h => s!"  (pista: {h})"

/-- How a session reports a diagnostic of a file: the file and the place in it, the message, and
advice if there is any. -/
def report (file place : String) (d : Diagnostic) : Message where
  text := s!"{file}:{place}: ERROR: {d.message}{advice d.hint}"
  style := some .boldRed
  markup := false
  highlight := false
  softWrap := true

/-- The lines show the registers of a machine, one on a line, and behind these its pc and flags. -/
structure Dumps (s : Machine) (lines : List String) : Prop where
  length_eq : lines.length = registerCount + 1
  register : ∀ r : Register, lines[r.val]? =
    some s!"R{Text.padRight 2 (toString r.val)} = {Text.padLeft 3 (toString s.registers[r].toNat)}"
  flags : lines[registerCount]? = some (s!"pc = {s.pc}  cmp = {s.difference.toNat}  underflow = " ++
    if s.borrow then "True" else "False")

theorem dumps_dump (s : Machine) : Dumps s (dump s) := by
  have hlength : (s.registers.toList.map UInt8.toNat).zipIdx.length = registerCount := by simp
  refine ⟨by simp [dump], fun r => ?_, ?_⟩
  · rw [dump, List.getElem?_append_left (by rw [List.length_map, hlength]; exact r.isLt),
      List.getElem?_map, List.getElem?_zipIdx]
    simp
  · rw [dump, List.getElem?_append_right (by rw [List.length_map, hlength]), List.length_map,
      hlength, Nat.sub_self]
    rfl

end Session

namespace Diagnostic

variable {d : Diagnostic} {file place : String} {line column : Nat}

theorem text_eq (d : Diagnostic) : d.text = (if d.place.isEmpty then "" else d.place ++ ": ") ++
    d.severity.label ++ ": " ++ d.message ++ Session.advice d.hint := rfl

theorem text_of_place (hs : d.severity = .error) (h : d.place = file ++ ":" ++ place) :
    d.text = (Session.report file place d).text := by
  have hne : (file ++ ":" ++ place).isEmpty = false := by simp
  have hlabel : Severity.error.label = "ERROR" := by decide +kernel
  have hmark : (": ERROR: " : String) = ": " ++ "ERROR" ++ ": " := rfl
  have hstring : ∀ s : String, toString s = s := fun _ => rfl
  rw [text_eq, hs, hlabel, Session.report, h, hmark, if_neg (by rw [hne]; exact Bool.false_ne_true)]
  simp only [hstring, String.append_assoc]

/-- A place in a file has a line and a column. -/
theorem text_inFile (hs : d.severity = .error) (hl : d.line = some (line : Int))
    (hc : d.column = some (column : Int)) :
    (d.inFile file).text = (Session.report file s!"{line}:{column}" d).text := by
  refine text_of_place (d := d.inFile file) hs ?_
  rw [Diagnostic.place, inFile, hl, hc]
  show file ++ ":" ++ (toString line ++ (":" ++ toString column)) = _
  simp only [String.append_assoc]
  rfl

/-- Without a line only the file is shown. -/
theorem text_inFile_of_none (hs : d.severity = .error) (hl : d.line = none) :
    (d.inFile file).text = (Session.report file "" d).text := by
  refine text_of_place (d := d.inFile file) hs ?_
  rw [Diagnostic.place, inFile, hl]
  rfl

end Diagnostic

theorem ParseError.severity_diagnostic (e : ParseError) : e.diagnostic.severity = .error := by
  rw [diagnostic]
  cases e.got <;> rfl

theorem SourceError.severity_diagnostic (e : SourceError) : e.diagnostic.severity = .error := by
  cases e with
  | lexical e pos => rfl
  | parse e => exact e.severity_diagnostic
  | statement e => rfl

/-! ### Sessions -/

namespace World

open Session

variable {C : Console} {W : World} {limit w : Nat} {args : List String} {a : Arguments}
  {text : List Char} {i : Image} {s : Machine}

theorem run_bind {α β : Type} (x : StateM World α) (f : α → StateM World β) (W : World) :
    (x >>= f).run W = (f (x.run W).1).run (x.run W).2 := rfl

theorem run_print (msg : Message) (W : World) : ((host C limit).print msg).run W =
    ((), { W with output := W.output ++ C.output msg }) := rfl

/-- Plain lines are shown as they are, one after the other, if each of them is shown to the world. -/
theorem run_printLines {pictures : String → Prop} {H : Host (StateM World)}
    (hC : C.Faithful pictures) (hprint : ∀ msg W, (H.print msg).run W =
      ((), { W with output := W.output ++ C.output msg })) (markup : Bool) {lines : List String}
    (hlines : ∀ msg : Message, msg.text ∈ lines → msg.Plain pictures) (W : World) :
    (printLines H markup lines).run W =
      ((), { W with output := W.output ++ String.join (lines.map (· ++ "\n")) }) := by
  induction lines generalizing W with
  | nil =>
    show ((), W) = ((), { W with output := W.output ++ "" })
    rw [String.append_empty]
  | cons line lines ih =>
    let msg : Message := { text := line, markup, highlight := false }
    have hplain : msg.Plain pictures := hlines msg List.mem_cons_self
    show (printLines H markup lines).run ((H.print msg).run W).2 = _
    rw [hprint, hC.output_eq msg hplain, ih fun msg hmem => hlines msg (List.mem_cons_of_mem _ hmem),
      List.map_cons, String.join_cons, String.append_assoc]

/-- The world in which a program has been run, behind the first line. -/
def afterRun (C : Console) (W : World) (a : Arguments) (i : Image) (s : Machine) : World :=
  { W with input := s.input, output := W.output ++ C.output (banner a.source i) ++ s.output }

theorem run_readFile (path : String) (W : World) :
    ((host C limit).readFile path).run W = (W.files.read path, W) := rfl

theorem run_execute {ending : Ending} (h : (Machine.ofImage i W.input).run limit = (ending, s)) :
    ((host C limit).execute i).run W =
      ((ending, s), { W with input := s.input, output := W.output ++ s.output }) := by
  have hrun : ((host C limit).execute i).run W =
      let r := (Machine.ofImage i W.input).run limit
      (r, { W with input := r.2.input, output := W.output ++ r.2.output }) := rfl
  rw [hrun, h]

/-- The line behind a run that halts is plain. -/
theorem output_success {pictures : String → Prop} (hC : C.Faithful pictures) : C.output
    { text := "Program exited successfully", style := some .boldGreen, highlight := false } =
      "Program exited successfully\n" :=
  hC.output_eq _ (Message.plain_of_short rfl (by simp [Text.Short, Console.width]))

theorem run_runImage {pictures : String → Prop} (hC : C.Faithful pictures) {ending : Ending}
    (h : (Machine.ofImage i W.input).run limit = (ending, s)) (hpc : s.pc < 1000) :
    (runImage (host C limit) a i).run W = match ending with
      | .failed (.fault f) => (.code 1, { W.afterRun C a i s with
          errors := W.errors ++ C.errors (report a.source "" f.diagnostic) })
      | .failed (.tooLong e) => (.aborted (.tooLong e), W.afterRun C a i s)
      | .running => (.unfinished, W.afterRun C a i s)
      | .halted => (.code 0, { W.afterRun C a i s with
          output := (W.afterRun C a i s).output ++ "Program exited successfully\n" ++
            if a.dump then String.join ((dump s).map (· ++ "\n")) else "" }) := by
  have hexecute := run_execute (C := C)
    (W := { W with output := W.output ++ C.output (banner a.source i) }) h
  rw [runImage, run_bind, run_print, run_bind, hexecute]
  cases ending with
  | halted =>
    rw [run_bind, run_print, output_success hC]
    cases a.dump with
    | false =>
      simp only [Bool.false_eq_true, if_false, String.append_empty]
      rfl
    | true =>
      simp only [if_true]
      rw [run_bind, run_printLines hC run_print true fun msg hmem => plain_of_mem_dump hpc hmem]
      rfl
  | failed t =>
    cases t with
    | fault f =>
      simp only
      rw [f.diagnostic.text_inFile_of_none rfl rfl]
      rfl
    | tooLong e => rfl
  | running => rfl

/-- **A session that only runs a program** assembles the text of the source. -/
theorem session_eq (hargs : Arguments.read args = .ok a) (ha : a.RunOnly w)
    (hfile : W.files.read a.source = .ok (Utf8.encode (String.ofList text))) :
    World.session C limit args W =
      (useSource (host C limit) a (Text.normalizeNewlines text)).run W := by
  have hrun : World.session C limit args W = (readSource (host C limit) a).run W := by
    rw [session, Session.run, hargs]
    simp only [ha.hasLogLevel, if_true]
  rw [hrun, readSource, run_bind, run_readFile, hfile]
  simp only [Utf8.decode_encode]

theorem run_useSource_error {e : SourceError} {line column : Nat} (ha : a.RunOnly w)
    (h : assemble .standard w text = .error (.source e)) (hline : e.diagnostic.line = some (line : Int))
    (hcolumn : e.diagnostic.column = some (column : Int)) :
    (useSource (host C limit) a text).run W = (.code 1, { W with
      errors := W.errors ++ C.errors (report a.source s!"{line}:{column}" e.diagnostic) }) := by
  rw [useSource, ha.tabWidth_eq]
  simp only [h]
  rw [Diagnostic.text_inFile e.severity_diagnostic hline hcolumn]
  rfl

theorem run_useSource_ok {assembly : Assembly} (ha : a.RunOnly w)
    (h : assemble .standard w text = .ok assembly) : (useSource (host C limit) a text).run W =
      (runImage (host C limit) a assembly.image).run W := by
  rw [useSource, ha.tabWidth_eq]
  simp only [h, useImage, ha.files_eq, writeFiles, pure_bind, ha.noListing]
  rfl

end World

end Asm256
