/-
What is printed, and reading it again.

A `PRINT` that succeeds writes the byte that it delivers on a line of the output, in plain decimal
digits (`Decimal.Plain`), and no other step writes anything.  A line like that is read as its byte,
so what one program prints another can read:
* `Machine.call_printed` — what a step prints, whatever bytes are ahead;
* `Machine.printed_calls` — what any number of steps have printed;
* `LineStream.readBytes_ofBytes` — the lines of bytes are read as these bytes;
* `printed_text_is_read_back` — all of this.
-/
import Asm256.Proofs.Listing.Written
import Asm256.Proofs.Machine.Flags
import Asm256.Proofs.Machine.Lines

namespace Asm256

/-! ### Plain numerals -/

namespace Decimal

/-- The decimal numeral of a number: the digits denote it, and they do not start with a zero unless
that is all. -/
structure Plain (digits : List Char) (n : Nat) : Prop where
  ne_nil : digits ≠ []
  isDigit : ∀ c ∈ digits, Decimal.isDigit c
  value_eq : Decimal.value digits = n
  eq_zero : digits.head? = some '0' → digits = ['0']

/-- The first digit of a number that has two digits at least is that of a smaller number. -/
theorem eq_zero_of_head?_toDigits (n : Nat) (h : (Nat.toDigits 10 n).head? = some '0') : n = 0 := by
  induction n using Nat.strongRecOn with
  | ind n ih =>
    rw [Nat.toDigits_eq_if (by decide)] at h
    split at h
    · next hlt =>
      interval_cases n <;> first | rfl | simp at h
    · next hge =>
      rw [List.head?_append_of_ne_nil _ Nat.toDigits_ne_nil] at h
      have hzero := ih (n / 10) (by omega) h
      omega

/-- Bytes are written in plain numerals. -/
theorem plain_toString (v : UInt8) : Plain (toString v.toNat).toList v.toNat := by
  have hv := Item.numeral_toString v.toNat_lt
  refine ⟨hv.ne_nil, hv.isDigit, hv.value_eq, fun h => ?_⟩
  have hdigits : (toString v.toNat).toList = Nat.toDigits 10 v.toNat := by
    rw [Nat.toString_eq_repr, Nat.toList_repr]
  rw [hdigits] at h ⊢
  rw [eq_zero_of_head?_toDigits _ h, Nat.toDigits_zero]

end Decimal

/-! ### Lines of plain numerals are read -/

namespace LineStream

/-- The lines of bytes: their numerals, each with a line feed behind it. -/
def ofBytes (vs : List UInt8) : List Char :=
  vs.flatMap fun v => (toString v.toNat).toList ++ ['\n']

/-- What `k` reads of the input come to, and the input that they leave. -/
def readBytes : (k : Nat) → List Char → List (Except Trap UInt8) × List Char
  | 0, text => ([], text)
  | k + 1, text =>
      ((readByte text).1 :: (readBytes k (readByte text).2).1, (readBytes k (readByte text).2).2)

@[simp] theorem ofBytes_nil : ofBytes [] = [] := rfl

theorem ofBytes_cons (v : UInt8) (vs : List UInt8) :
    ofBytes (v :: vs) = (toString v.toNat).toList ++ '\n' :: ofBytes vs := by
  simp [ofBytes]

theorem ofBytes_append (us vs : List UInt8) : ofBytes (us ++ vs) = ofBytes us ++ ofBytes vs := by
  simp [ofBytes]

/-- A byte is read off its line, and just that line is taken. -/
theorem readByte_ofBytes (v : UInt8) (vs : List UInt8) :
    readByte (ofBytes (v :: vs)) = (.ok v, ofBytes vs) := by
  have hv := Item.numeral_toString v.toNat_lt
  have hn : '\n' ∉ (toString v.toNat).toList := fun hmem =>
    absurd (hv.isDigit '\n' hmem) (by decide)
  have hbyte : byte? (toString v.toNat).toList = .ok (some v) := by
    rw [byte?_of_isNumeral (.of_digits hv.ne_nil hv.isDigit), if_neg (Nat.not_lt.2 hv.length_le),
      hv.value_eq, if_pos v.toNat_lt, UInt8.ofNat_toNat]
  rw [ofBytes_cons, readByte_line hn, hbyte]

/-- **The lines of bytes are read one by one**: each read takes the next line and no other. -/
theorem readBytes_ofBytes (us vs : List UInt8) :
    readBytes us.length (ofBytes (us ++ vs)) = (us.map .ok, ofBytes vs) := by
  induction us with
  | nil => rfl
  | cons u us ih =>
    rw [List.cons_append, List.length_cons, readBytes, readByte_ofBytes, ih, List.map_cons]

/-- Behind the last line the input is exhausted. -/
theorem readBytes_succ_ofBytes (vs : List UInt8) : readBytes (vs.length + 1) (ofBytes vs) =
    (vs.map .ok ++ [.error (.fault .inputExhausted)], []) := by
  induction vs with
  | nil =>
    rw [ofBytes_nil, List.length_nil, readBytes, readByte_nil]
    rfl
  | cons v vs ih =>
    rw [List.length_cons, readBytes, readByte_ofBytes, ih, List.map_cons, List.cons_append]

end LineStream

/-! ### What commands print -/

open LineStream (ofBytes)

/-- The byte that a command prints if it succeeds. -/
def Command.printed? (m : Machine) : Command UInt8 → Option UInt8
  | printRegister source => some (m.registers.get source)
  | printMemory offset => m.data? offset
  | _ => none

namespace Machine

variable {m m' m'' : Machine} {vs vs' : List UInt8}

/-- From `m` to `m'` the bytes `vs` have been printed, each on a line, and nothing else. -/
structure Printed (m m' : Machine) (vs : List UInt8) : Prop where
  output_eq : m'.output = m.output ++ String.ofList (ofBytes vs)

theorem Printed.of_output_eq (h : m'.output = m.output) : m.Printed m' [] := by
  refine ⟨?_⟩
  rw [h]
  exact String.append_empty.symm

theorem Printed.trans (h : m.Printed m' vs) (h' : m'.Printed m'' vs') :
    m.Printed m'' (vs ++ vs') := by
  refine ⟨?_⟩
  rw [h'.output_eq, h.output_eq, LineStream.ofBytes_append, String.ofList_append,
    String.append_assoc]

/-- A byte that is printed is written on a line. -/
theorem printed_print (m : Machine) (v : UInt8) :
    m.Printed { m with output := m.output ++ LineStream.written (toString v.toNat) } [v] := by
  refine ⟨?_⟩
  rw [LineStream.ofBytes_cons, String.ofList_append, String.ofList_toList]
  rfl

end Machine

namespace Command

open Exec

/-- Behind a success the bytes `vs` have been printed, and behind a failure none. -/
inductive LeavesOutput (m : Machine) (vs : List UInt8) : EStateM.Result Trap Machine Unit → Prop
  | ok {v : Unit} {m' : Machine} (h : m.Printed m' vs) : LeavesOutput m vs (.ok v m')
  | error {t : Trap} {m' : Machine} (h : m.Printed m' []) : LeavesOutput m vs (.error t m')

theorem leavesOutput_writeData {m m' : Machine} (h : m.Printed m' []) (offset : Nat) (v : UInt8) :
    LeavesOutput m [] ((writeData offset v).run m') := by
  rw [run_writeData]
  cases m'.dataAddress? offset with
  | none => exact .error h
  | some address => exact .ok ⟨h.output_eq⟩

/-- **The two commands that print write their byte**, and no other command writes anything, nor does
one that fails. -/
theorem output_perform (c : Command UInt8) (m : Machine) :
    LeavesOutput m (c.printed? m).toList (c.perform.run m) := by
  have hsame : ∀ {m' : Machine}, m'.output = m.output → m.Printed m' [] := .of_output_eq
  have hinput : m.Printed { m with input := (LineStream.readByte m.input).2 } [] := hsame rfl
  cases c with
  | nop | halt => exact .ok (hsame rfl)
  | load target offset =>
    rw [perform, EStateM.run_bind, run_readData]
    cases m.dataAddress? offset.toNat with
    | none => exact .error (hsame rfl)
    | some address => exact .ok (hsame rfl)
  | store source offset =>
    rw [perform, EStateM.run_bind, run_register]
    exact leavesOutput_writeData (hsame rfl) _ _
  | compute f target left right => cases right <;> exact .ok (hsame rfl)
  | move target source | complement target source => cases source <;> exact .ok (hsame rfl)
  | compare left right => cases right <;> exact .ok (hsame rfl)
  | branch cond target =>
    rw [run_branch]
    split <;> exact .ok (hsame rfl)
  | printRegister source => exact .ok (m.printed_print _)
  | printMemory offset =>
    rw [perform, EStateM.run_bind, Machine.run_readData_data?, printed?]
    cases m.data? offset with
    | none => exact .error (hsame rfl)
    | some v => exact .ok (m.printed_print v)
  | inputRegister target =>
    rw [perform, EStateM.run_bind, run_readInput]
    cases (LineStream.readByte m.input).1 with
    | ok v => exact .ok (hsame rfl)
    | error t => exact .error (hsame rfl)
  | inputMemory offset =>
    rw [perform, EStateM.run_bind, run_readInput]
    cases (LineStream.readByte m.input).1 with
    | ok v => exact leavesOutput_writeData hinput _ v
    | error t => exact .error hinput

end Command

/-! ### What steps print -/

namespace Machine

variable {m m' : Machine} {op : Opcode} {args rest : List UInt8} {c : Command UInt8}

/-- The byte that the next step prints: `PRINT` prints the contents of its register or the byte of
data at its offset, unless it fails. -/
def printed? (m : Machine) : Option UInt8 :=
  match m.call.1, m.ahead with
  | .ok .printRegister, _ :: source :: _ => (Asm256.register? source).map m.registers.get
  | .ok .printMemory, _ :: offset :: _ => m.data? offset
  | _, _ => none

/-- The bytes that `n` steps print, one after the other. -/
def prints : (n : Nat) → Machine → List UInt8
  | 0, _ => []
  | n + 1, m => m.printed?.toList ++ prints n m.call.2

theorem eq_printRegister (h : op.operation = .printRegister) : op = .printRegister := by
  cases op <;> first | rfl | cases h

theorem eq_printMemory (h : op.operation = .printMemory) : op = .printMemory := by
  cases op <;> first | rfl | cases h

/-- A step that performs a command prints what the command does. -/
theorem printed?_of_ok (h : m.ahead = op.toByte :: (args ++ rest))
    (hc : op.operation.command? args = some c) (hok : m.call.1 = .ok op) :
    m.printed? = c.printed? m := by
  obtain ⟨hop, rfl⟩ := Operation.command?_eq_some_iff.1 hc
  unfold printed?
  rw [hok, h]
  cases c with
  | printRegister source =>
    obtain rfl := eq_printRegister hop
    simp [Command.bytes, Command.printed?]
  | printMemory offset =>
    obtain rfl := eq_printMemory hop
    rfl
  | _ =>
    -- the opcode is neither of the two that print
    split
    · next hprint _ => cases hprint; cases hop
    · next hprint _ => cases hprint; cases hop
    · rfl

theorem printed?_of_passed (h : m.ahead = [op.toByte]) : m.printed? = none := by
  unfold printed?
  rw [h]
  split <;> first | rfl | next heq => cases heq

theorem printed?_of_error {t : Trap} (h : m.call.1 = .error t) : m.printed? = none := by
  rw [printed?, h]

/-- **What a step prints**, whatever bytes are ahead. -/
theorem call_printed (m : Machine) : m.Printed m.call.2 m.printed?.toList := by
  have hcalled := m.called
  generalize hr : m.call = r at hcalled
  cases hcalled with
  | stuck k =>
    rw [printed?_of_error (congrArg Prod.fst hr)]
    exact .of_output_eq rfl
  | passed h hc =>
    rw [printed?_of_passed h]
    exact .of_output_eq rfl
  | @failed c t m' k hrun =>
    have hout := Command.output_perform c (m.advance k)
    rw [hrun] at hout
    rw [printed?_of_error (congrArg Prod.fst hr)]
    cases hout with
    | error h' => exact ⟨h'.output_eq⟩
  | @performed op args rest c m' h hc hrun =>
    have hout := Command.output_perform c (m.advance (1 + args.length))
    rw [hrun] at hout
    rw [printed?_of_ok h hc (congrArg Prod.fst hr)]
    cases hout with
    | ok h' => exact ⟨h'.output_eq⟩

/-- **Any number of steps** print what each of them prints, one after the other. -/
theorem printed_calls (n : Nat) (m : Machine) : m.Printed (m.calls n).2 (m.prints n) := by
  induction n generalizing m with
  | zero => exact .of_output_eq rfl
  | succ n ih => exact m.call_printed.trans (ih m.call.2)

/-- A `PRINT` of a register that succeeds prints its contents. -/
theorem exists_of_call_printRegister (h : m.call.1 = .ok .printRegister) : ∃ source rest,
    m.ahead = Opcode.printRegister.toByte :: registerByte source :: rest ∧
      m.printed? = some (m.registers.get source) := by
  obtain ⟨c, rest, hahead, hop, hc⟩ := exists_command_of_ok h fun cond heq => by cases heq
  cases c with
  | printRegister source => exact ⟨source, rest, hahead, printed?_of_ok hahead hc h⟩
  | _ => cases hop

/-- A `PRINT` of a byte of data that succeeds prints that byte. -/
theorem exists_of_call_printMemory (h : m.call.1 = .ok .printMemory) : ∃ offset v rest,
    m.ahead = Opcode.printMemory.toByte :: offset :: rest ∧ m.data? offset = some v ∧
      m.printed? = some v := by
  obtain ⟨c, rest, hahead, hop, hc⟩ := exists_command_of_ok h fun cond heq => by cases heq
  cases c with
  | printMemory offset =>
    have hprinted : m.printed? = m.data? offset := printed?_of_ok hahead hc h
    cases hv : m.data? offset with
    | none =>
      have hstep := step_printMemory hahead
      rw [hv] at hstep
      rw [call_of_error hstep] at h
      cases h
    | some v => exact ⟨offset, v, rest, hahead, hv, hprinted.trans hv⟩
  | _ => cases hop

/-- No other step prints anything. -/
theorem printed?_eq_none (hr : m.call.1 ≠ .ok .printRegister) (hm : m.call.1 ≠ .ok .printMemory) :
    m.printed? = none := by
  unfold printed?
  split
  · next h _ => exact absurd h hr
  · next h _ => exact absurd h hm
  · rfl

/-- The number of steps that a run takes: it ends behind a failure, and in front of a step of a
machine that has halted. -/
def taken : (limit : Nat) → Machine → Nat
  | 0, _ => 0
  | limit + 1, m =>
      if m.halted then 0
      else match m.call.1 with
        | .ok _ => taken limit m.call.2 + 1
        | .error _ => 1

/-- **A run is the steps that it takes**, whether it is finished, failed or cut off. -/
theorem run_eq_calls (limit : Nat) (m : Machine) : (m.run limit).2 = (m.calls (m.taken limit)).2 := by
  induction limit generalizing m with
  | zero => rfl
  | succ limit ih =>
    rw [run, taken]
    by_cases hh : m.halted = true
    · rw [if_pos hh, if_pos hh]
      rfl
    · rw [if_neg hh, if_neg hh]
      cases hs : m.step with
      | ok op m' =>
        rw [call_of_ok hs, calls, call_of_ok hs]
        exact ih m'
      | error t m' =>
        rw [call_of_error hs, calls, call_of_error hs]
        rfl

end Machine

/-- **What one program prints another can read.**  A run is some number of steps, whether it is
finished, failed or cut off.  The text that any number of steps write, also behind steps that failed,
is that of the bytes that are printed, in order: their decimal numerals, each with a line feed behind
it.  Each `PRINT` that succeeds prints the byte in its register or the byte of data at its offset,
and no other step prints or writes anything.  And where the text is the input, as many reads as bytes
were printed give these bytes, each read taking one line and leaving the others, and the next read
finds the input exhausted. -/
theorem printed_text_is_read_back (m : Machine) :
    (∀ limit, (m.run limit).2 = (m.calls (m.taken limit)).2) ∧
    (∀ v : UInt8, Decimal.Plain (toString v.toNat).toList v.toNat) ∧
    ∀ n,
      let m' := (m.calls n).2
      let printed := m.prints n
      let text := printed.flatMap fun v => (toString v.toNat).toList ++ ['\n']
      m'.output = m.output ++ String.ofList text ∧
      (m'.call.1 = .ok .printRegister → ∃ source rest,
        m'.ahead = Opcode.printRegister.toByte :: registerByte source :: rest ∧
        m'.printed? = some (m'.registers.get source)) ∧
      (m'.call.1 = .ok .printMemory → ∃ offset v rest,
        m'.ahead = Opcode.printMemory.toByte :: offset :: rest ∧ m'.data? offset = some v ∧
        m'.printed? = some v) ∧
      (m'.call.1 ≠ .ok .printRegister → m'.call.1 ≠ .ok .printMemory →
        m'.printed? = none ∧ m'.call.2.output = m'.output) ∧
      (∀ k ≤ printed.length, LineStream.readBytes k text = ((printed.take k).map .ok,
        (printed.drop k).flatMap fun v => (toString v.toNat).toList ++ ['\n'])) ∧
      LineStream.readBytes (printed.length + 1) text =
        (printed.map .ok ++ [.error (.fault .inputExhausted)], []) := by
  refine ⟨fun limit => Machine.run_eq_calls limit m, Decimal.plain_toString, fun n => ?_⟩
  intro m' printed text
  refine ⟨(Machine.printed_calls n m).output_eq, Machine.exists_of_call_printRegister,
    Machine.exists_of_call_printMemory, fun hr hm => ?_, fun k hk => ?_,
    LineStream.readBytes_succ_ofBytes printed⟩
  · have hnone := Machine.printed?_eq_none hr hm
    have hcall := m'.call_printed.output_eq
    rw [hnone] at hcall
    exact ⟨hnone, hcall.trans String.append_empty⟩
  · have hread := LineStream.readBytes_ofBytes (printed.take k) (printed.drop k)
    rwa [List.take_append_drop, List.length_take_of_le hk] at hread

/-- A register and a byte of data are printed, then the program fails on an offset out of memory; the
two lines are read, and there is no third. -/
theorem printed_text_is_read_back_failed : ∃ m, Machine.load
      (0x1C :: 3 :: 0x1D :: 0 :: 0x1D :: 250 :: 205 :: List.replicate 249 0)
      (0 :: 0 :: 0 :: 7 :: List.replicate 9 0) 6 [] = .ok m ∧
    (m.run 9).1 = .failed (.fault (.outOfBoundsRead 250)) ∧ (m.run 9).2.output = "7\n205\n" ∧
    LineStream.readBytes 3 "7\n205\n".toList =
      ([.ok 7, .ok 205, .error (.fault .inputExhausted)], []) := by
  obtain ⟨m, hload, hm⟩ := exists_ok_of_any (p := fun m : Machine =>
    decide ((m.run 9).1 = .failed (.fault (.outOfBoundsRead 250))) && decide (m.taken 9 = 3) &&
      decide (m.prints 3 = [7, 205]) && decide (m.output = "")) (x := Machine.load
        (0x1C :: 3 :: 0x1D :: 0 :: 0x1D :: 250 :: 205 :: List.replicate 249 0)
        (0 :: 0 :: 0 :: 7 :: List.replicate 9 0) 6 [])
    (by decide +kernel)
  simp only [Bool.and_eq_true, decide_eq_true_eq] at hm
  obtain ⟨⟨⟨hending, htaken⟩, hprints⟩, hempty⟩ := hm
  obtain ⟨hrun, -, hsteps⟩ := printed_text_is_read_back m
  obtain ⟨houtput, -, -, -, -, hread⟩ := hsteps 3
  have hrun := hrun 9
  rw [htaken] at hrun
  rw [hprints, hempty] at houtput
  rw [hprints] at hread
  exact ⟨m, hload, hending, by rw [hrun, houtput]; decide, hread⟩

end Asm256
