/-
What a run takes from its input.

An instruction does not look at the input, or it takes the next byte off it, and
then all it does depends on the input by that byte only (`Exec.Asks`).  So a run
depends on the values that it has read, and not on how they are written, on the
lines between them or on the lines behind them:
* `Exec.asks_step` — what one step does with the input;
* `Machine.step_of_values_eq`, `Machine.calls_of_values_eq` — on inputs with the same values,
  all steps come to the same;
* `Machine.step_of_ok`, `Machine.iterate_of_ok` — steps that succeed come to the same on all
  inputs that begin with the values read;
* `runs_depend_on_values` — both, for the machines that are loaded.
-/
import Asm256.Proofs.Machine.Calls
import Asm256.Proofs.Machine.Lines

namespace Asm256

/-- The machine with another input. -/
def Machine.withInput (m : Machine) (input : List Char) : Machine := { m with input := input }

/-! ### Actions and the input -/

namespace Exec

open LineStream (readByte)

variable {α β : Type} {x : Exec α} {f : α → Exec β} {m : Machine} {start : Nat}

/-- The result with another input left. -/
def leaving (input : List Char) : EStateM.Result Trap Machine α → EStateM.Result Trap Machine α
  | .ok v m => .ok v (m.withInput input)
  | .error t m => .error t (m.withInput input)

/-- The result for a byte that is read, and the failure at `m` when reading fails. -/
def answer (m : Machine) (g : UInt8 → EStateM.Result Trap Machine α) :
    Except Trap UInt8 → EStateM.Result Trap Machine α
  | .ok v => g v
  | .error t => .error t m

/-- The action does not look at the input, and leaves it as it is. -/
def Blind (x : Exec α) : Prop :=
  ∀ m input, x.run (m.withInput input) = leaving input (x.run m)

/-- The action does not look at the input, or asks it for one byte and depends on that only. -/
inductive Asks (x : Exec α) (m : Machine) : Prop
  | nothing (r : EStateM.Result Trap Machine α)
      (h : ∀ input, x.run (m.withInput input) = leaving input r)
  | byte (m₀ : Machine) (g : UInt8 → EStateM.Result Trap Machine α)
      (h : ∀ input, x.run (m.withInput input) =
        leaving (readByte input).2 (answer m₀ g (readByte input).1))

theorem Blind.asks (hx : Blind x) (m : Machine) : Asks x m :=
  .nothing (x.run m) (hx m)

theorem Blind.bind (hx : Blind x) (hf : ∀ v, Blind (f v)) : Blind (x >>= f) := by
  intro m input
  rw [EStateM.run_bind, EStateM.run_bind, hx]
  cases x.run m with
  | ok v m₁ => exact hf v m₁ input
  | error t m₁ => rfl

/-- What an action asks for is asked for behind one that does not look at the input. -/
theorem Blind.bind_asks (hx : Blind x) (hf : ∀ v m, Asks (f v) m) (m : Machine) :
    Asks (x >>= f) m := by
  cases hr : x.run m with
  | error t m₁ =>
    refine .nothing (.error t m₁) fun input => ?_
    rw [EStateM.run_bind, hx, hr]
    rfl
  | ok v m₁ =>
    have hrun : ∀ input, (x >>= f).run (m.withInput input) = (f v).run (m₁.withInput input) := by
      intro input
      rw [EStateM.run_bind, hx, hr]
      rfl
    cases hf v m₁ with
    | nothing r h => exact .nothing r fun input => (hrun input).trans (h input)
    | byte m₀ g h => exact .byte m₀ g fun input => (hrun input).trans (h input)

/-- The result of going on behind a result. -/
def resume (f : α → Exec β) : EStateM.Result Trap Machine α → EStateM.Result Trap Machine β
  | .ok v m => (f v).run m
  | .error t m => .error t m

theorem Blind.resume_leaving (hf : ∀ v, Blind (f v)) (input : List Char)
    (r : EStateM.Result Trap Machine α) : resume f (leaving input r) = leaving input (resume f r) := by
  cases r with
  | ok v m => exact hf v m input
  | error t m => rfl

/-- An action that asks for a byte may be followed by one that does not look at the input. -/
theorem Asks.bind (hx : Asks x m) (hf : ∀ v, Blind (f v)) : Asks (x >>= f) m := by
  have hbind : ∀ m, (x >>= f).run m = resume f (x.run m) := by
    intro m
    rw [EStateM.run_bind]
    cases x.run m <;> rfl
  cases hx with
  | nothing r h =>
    refine .nothing (resume f r) fun input => ?_
    rw [hbind, h, Blind.resume_leaving hf]
  | byte m₀ g h =>
    refine .byte m₀ (fun v => resume f (g v)) fun input => ?_
    rw [hbind, h, Blind.resume_leaving hf]
    cases (readByte input).1 <;> rfl

theorem asks_readInput (m : Machine) : Asks readInput m := by
  refine .byte m (fun v => .ok v m) fun input => ?_
  rw [run_readInput]
  show (match (readByte input).1 with
    | .ok v => _
    | .error t => _) = _
  cases (readByte input).1 <;> rfl

theorem blind_pure (v : α) : Blind (pure v) := fun _ _ => rfl

theorem blind_fault (e : Fault) : Blind (fault e : Exec α) := fun _ _ => rfl

theorem blind_register (r : Register) : Blind (register r) := fun _ _ => rfl

theorem blind_setRegister (r : Register) (v : UInt8) : Blind (setRegister r v) := fun _ _ => rfl

theorem blind_print (v : UInt8) : Blind (print v) := fun _ _ => rfl

theorem blind_fetch : Blind fetch := by
  intro m input
  cases hm : m.ahead with
  | nil =>
    have hm' : (m.withInput input).ahead = [] := hm
    rw [run_fetch_end hm, run_fetch_end hm']
    rfl
  | cons b bs =>
    have hm' : (m.withInput input).ahead = b :: bs := hm
    rw [run_fetch hm, run_fetch hm']
    rfl

theorem blind_fetchRegister : Blind (fetchRegister start) := by
  refine blind_fetch.bind fun b => ?_
  split
  · exact blind_pure _
  · exact blind_fault _

theorem blind_fetchOperand (mode : Addressing) : Blind (fetchOperand start mode) := by
  cases mode with
  | register => exact blind_fetchRegister.bind blind_register
  | literal => exact blind_fetch

theorem blind_readData (offset : Int) : Blind (readData offset) := by
  intro m input
  have haddress : (m.withInput input).dataAddress? offset = m.dataAddress? offset := rfl
  rw [run_readData, run_readData, haddress]
  cases m.dataAddress? offset <;> rfl

theorem blind_writeData (offset : Int) (v : UInt8) : Blind (writeData offset v) := by
  intro m input
  have haddress : (m.withInput input).dataAddress? offset = m.dataAddress? offset := rfl
  rw [run_writeData, run_writeData, haddress]
  cases m.dataAddress? offset <;> rfl

theorem blind_branch (c : Condition) : Blind (perform start (.branch c)) := by
  intro m input
  rw [run_perform_branch, run_perform_branch, blind_fetch]
  by_cases hc : c.holds m.difference m.borrow = true
  · have hc' : c.holds (m.withInput input).difference (m.withInput input).borrow = true := hc
    rw [if_pos hc, if_pos hc']
    cases fetch.run m <;> rfl
  · have hc' : ¬ c.holds (m.withInput input).difference (m.withInput input).borrow = true := hc
    rw [if_neg hc, if_neg hc']
    rfl

/-- **Only the two input operations ask for a byte**, with their operands taken. -/
theorem asks_perform (op : Operation) (m : Machine) : Asks (perform start op) m := by
  cases op with
  | nop => exact (blind_pure _).asks m
  | halt => exact .nothing (.ok () { m with halted := true }) fun _ => rfl
  | load =>
    exact (blind_fetchRegister.bind fun _ => blind_fetch.bind fun _ =>
      (blind_readData _).bind fun _ => blind_setRegister _ _).asks m
  | store =>
    exact (blind_fetchRegister.bind fun _ => blind_fetch.bind fun _ =>
      (blind_register _).bind fun _ => blind_writeData _ _).asks m
  | compute f mode =>
    exact (blind_fetchRegister.bind fun _ => (blind_fetchOperand _).bind fun _ =>
      (blind_fetchOperand _).bind fun _ => blind_setRegister _ _).asks m
  | move mode =>
    exact (blind_fetchRegister.bind fun _ => (blind_fetchOperand _).bind fun _ =>
      blind_setRegister _ _).asks m
  | complement mode =>
    exact (blind_fetchRegister.bind fun _ => (blind_fetchOperand _).bind fun _ =>
      blind_setRegister _ _).asks m
  | compare mode =>
    exact ((blind_fetchOperand _).bind fun _ => (blind_fetchOperand _).bind fun _ =>
      fun _ _ => rfl).asks m
  | branch c => exact (blind_branch c).asks m
  | printRegister =>
    exact (blind_fetchRegister.bind fun _ => (blind_register _).bind fun _ =>
      blind_print _).asks m
  | printMemory =>
    exact (blind_fetch.bind fun _ => (blind_readData _).bind fun _ => blind_print _).asks m
  | inputRegister =>
    exact blind_fetchRegister.bind_asks (fun _ m => (asks_readInput m).bind fun _ =>
      blind_setRegister _ _) m
  | inputMemory =>
    exact blind_fetch.bind_asks (fun _ m => (asks_readInput m).bind fun _ => blind_writeData _ _) m

/-- Counts a step, which ends it. -/
def countStep (op : Opcode) : Exec Opcode := do
  modify fun m => { m with steps := m.steps + 1 }
  return op

/-- **One step asks for one byte at most.** -/
theorem asks_step (m : Machine) : Asks step m := by
  cases hm : m.ahead with
  | nil =>
    refine .nothing (.error (.fault (.readPastMemory m.pc)) m) fun input => ?_
    exact Machine.step_end (m := m.withInput input) hm
  | cons b bs =>
    cases hop : Opcode.ofByte? b with
    | none =>
      refine .nothing (.error (.fault (.invalidOpcode b.toNat m.pc)) (m.advance 1)) fun input => ?_
      exact Machine.step_of_no_opcode (m := m.withInput input) hm hop
    | some op =>
      have hcount : Blind (countStep op) := fun _ _ => rfl
      have hstep : ∀ input, step.run (m.withInput input) =
          (perform m.pc op.operation >>= fun _ => countStep op).run
            ((m.advance 1).withInput input) := by
        intro input
        have hm' : (m.withInput input).ahead = b :: bs := hm
        simp only [step, EStateM.run_bind, EStateM.run_get, run_fetch hm', hop]
        rfl
      cases (@asks_perform m.pc op.operation (m.advance 1)).bind fun _ => hcount with
      | nothing r h => exact .nothing r fun input => (hstep input).trans (h input)
      | byte m₀ g h => exact .byte m₀ g fun input => (hstep input).trans (h input)

end Exec

/-! ### Steps on inputs with the same values -/

namespace Machine

open LineStream (Short values readByte)
open Exec (leaving answer)

variable {m m' : Machine} {op : Opcode} {i j : List Char} {n : Nat}

/-- **A step comes to the same on inputs with the same values**, and leaves inputs with the same
values. -/
theorem step_of_values_eq (hi : Short i) (hj : Short j) (h : values j = values i) : ∃ r i' j',
    (m.withInput i).step = leaving i' r ∧ (m.withInput j).step = leaving j' r ∧
      Short i' ∧ Short j' ∧ values j' = values i' := by
  cases Exec.asks_step m with
  | nothing r hr => exact ⟨r, i, j, hr i, hr j, hi, hj, h⟩
  | byte m₀ g hg =>
    obtain ⟨hreadi, hresti⟩ := hi.readByte_eq
    obtain ⟨hreadj, hrestj⟩ := hj.readByte_eq
    have hread : (readByte j).1 = (readByte i).1 := by
      rw [hreadi, hreadj, h]
    refine ⟨answer m₀ g (readByte i).1, (readByte i).2, (readByte j).2, hg i, ?_,
      hi.of_suffix (LineStream.readByte_suffix i), hj.of_suffix (LineStream.readByte_suffix j), ?_⟩
    · rw [← hread]
      exact hg j
    · rw [hresti, hrestj, h]

/-- **All steps come to the same on inputs with the same values**, those that fail and those behind
them too. -/
theorem calls_of_values_eq (hi : Short i) (hj : Short j) (h : values j = values i) (n : Nat) :
    ((m.withInput j).calls n).1 = ((m.withInput i).calls n).1 ∧
    ∃ rest, ((m.withInput j).calls n).2 = ((m.withInput i).calls n).2.withInput rest ∧
      values rest = values ((m.withInput i).calls n).2.input := by
  induction n generalizing m i j with
  | zero => exact ⟨rfl, j, rfl, h⟩
  | succ n ih =>
    obtain ⟨r, i', j', hstepi, hstepj, hi', hj', h'⟩ := step_of_values_eq (m := m) hi hj h
    rw [calls, calls, call, call, hstepi, hstepj]
    cases r with
    | ok op m₁ =>
      obtain ⟨houtcomes, hmachines⟩ := ih (m := m₁) hi' hj' h'
      exact ⟨congrArg (List.cons (.ok op)) houtcomes, hmachines⟩
    | error t m₁ =>
      obtain ⟨houtcomes, hmachines⟩ := ih (m := m₁) hi' hj' h'
      exact ⟨congrArg (List.cons (.error t)) houtcomes, hmachines⟩

/-! ### Steps on inputs that begin with the same values -/

/-- **A step that succeeds has read some values**, and comes to the same on all inputs that begin
with them. -/
theorem step_of_ok (hi : Short i) (h : (m.withInput i).step = .ok op m') :
    Short m'.input ∧ ∃ read, values i = read ++ values m'.input ∧
      ∀ j unread, Short j → values j = read ++ unread → ∃ rest,
        (m.withInput j).step = .ok op (m'.withInput rest) ∧ Short rest ∧ values rest = unread := by
  cases Exec.asks_step m with
  | nothing r hr =>
    have hok := (hr i).symm.trans h
    cases r with
    | error t m₁ => cases hok
    | ok op' m₁ =>
      cases hok
      exact ⟨hi, [], rfl, fun j unread hj hv => ⟨j, hr j, hj, hv⟩⟩
  | byte m₀ g hg =>
    have hok := (hg i).symm.trans h
    cases hv : values i with
    | nil =>
      rw [hi.readByte_eq.1, hv] at hok
      cases hok
    | cons v vs =>
      obtain ⟨hread, hrest⟩ := hi.readByte_of_values hv
      rw [hread] at hok
      cases hr : g v with
      | error t m₁ =>
        rw [answer, hr] at hok
        cases hok
      | ok op' m₁ =>
        rw [answer, hr] at hok
        cases hok
        refine ⟨hi.of_suffix (LineStream.readByte_suffix i), [v], ?_, fun j unread hj hvj => ?_⟩
        · show v :: vs = v :: values (readByte i).2
          rw [hrest]
        · obtain ⟨hreadj, hrestj⟩ := hj.readByte_of_values hvj
          have hstep := hg j
          rw [hreadj, answer, hr] at hstep
          exact ⟨(readByte j).2, hstep, hj.of_suffix (LineStream.readByte_suffix j), hrestj⟩

/-- **Steps that succeed have read some values**, and come to the same on all inputs that begin with
them. -/
theorem iterate_of_ok (hi : Short i) (h : (m.withInput i).iterate n = .ok () m') :
    ∃ read, values i = read ++ values m'.input ∧
      ∀ j unread, Short j → values j = read ++ unread → ∃ rest,
        (m.withInput j).iterate n = .ok () (m'.withInput rest) ∧ values rest = unread := by
  induction n generalizing m i with
  | zero =>
    cases h
    exact ⟨[], rfl, fun j unread _ hv => ⟨j, rfl, hv⟩⟩
  | succ n ih =>
    rw [iterate_succ] at h
    cases hstep : (m.withInput i).step with
    | error t m₁ =>
      rw [hstep] at h
      cases h
    | ok op m₁ =>
      rw [hstep] at h
      obtain ⟨hshort, first, hfirst, hstepj⟩ := step_of_ok hi hstep
      obtain ⟨others, hothers, hrunj⟩ := ih (m := m₁) hshort h
      refine ⟨first ++ others, ?_, fun j unread hj hv => ?_⟩
      · rw [hfirst, hothers, List.append_assoc]
      · rw [List.append_assoc] at hv
        obtain ⟨middle, hok, hmiddle, hvalues⟩ := hstepj j _ hj hv
        obtain ⟨rest, hrun, hrest⟩ := hrunj middle unread hmiddle hvalues
        refine ⟨rest, ?_, hrest⟩
        rw [iterate_succ, hok]
        exact hrun

/-- A machine is loaded with any input, and no other part of it depends on that. -/
theorem load_withInput {memory registers : List UInt8} {codeSize : Int}
    (h : load memory registers codeSize i = .ok m) (j : List Char) :
    m.input = i ∧ load memory registers codeSize j = .ok (m.withInput j) := by
  unfold load at h ⊢
  split at h
  · next hm =>
    rw [dif_pos hm]
    split at h
    · next hr =>
      rw [dif_pos hr]
      split at h
      · next hc =>
        rw [dif_pos hc]
        cases h
        exact ⟨rfl, rfl⟩
      · cases h
    · cases h
  · cases h

end Machine

open LineStream (Short values accepted? IsEnding)

/-- **Runs depend on the input only through the values read so far.**  When `n` steps succeed on an
input, they have read some number `k` of its values; on an input with the same first `k` values they
succeed too, read these, and come to the same machine with another input left.  On inputs with the
same values, all steps come to the same, those that fail included.  And the values of a text are
those of its accepted lines, however each line ends. -/
theorem runs_depend_on_values {memory registers : List UInt8} {codeSize : Int}
    {s₁ s₂ : List Char} {m₁ : Machine}
    (h : Machine.load memory registers codeSize s₁ = .ok m₁) (hs₁ : Short s₁) (hs₂ : Short s₂) :
    ∃ m₂, Machine.load memory registers codeSize s₂ = .ok m₂ ∧
    (∀ n m', m₁.iterate n = .ok () m' →
      ∃ k ≤ (values s₁).length, values m'.input = (values s₁).drop k ∧
        ((values s₂).take k = (values s₁).take k → k ≤ (values s₂).length ∧ ∃ rest,
          m₂.iterate n = .ok () (m'.withInput rest) ∧ values rest = (values s₂).drop k)) ∧
    (values s₂ = values s₁ → ∀ n, (m₂.calls n).1 = (m₁.calls n).1 ∧ ∃ rest,
      (m₂.calls n).2 = (m₁.calls n).2.withInput rest ∧
        values rest = values (m₁.calls n).2.input) ∧
    ∀ (rows : List (List Char × List Char)) (last : List Char),
      (∀ row ∈ rows, '\n' ∉ row.1 ∧ IsEnding row.2) → '\n' ∉ last →
      values (rows.flatMap (fun row => row.1 ++ row.2) ++ last) =
        (rows.map Prod.fst ++ [last]).filterMap accepted? := by
  obtain ⟨hinput, hload⟩ := Machine.load_withInput h s₂
  have hm₁ : m₁.withInput s₁ = m₁ := by
    rw [← hinput]
    rfl
  refine ⟨m₁.withInput s₂, hload, fun n m' hrun => ?_, fun hvalues n => ?_,
    fun rows last => LineStream.values_eq_filterMap⟩
  · rw [← hm₁] at hrun
    obtain ⟨read, hread, hother⟩ := Machine.iterate_of_ok hs₁ hrun
    refine ⟨read.length, ?_, ?_, fun hsame => ?_⟩
    · rw [hread, List.length_append]
      exact Nat.le_add_right _ _
    · rw [hread, List.drop_left]
    · rw [hread, List.take_left] at hsame
      have hsplit : values s₂ = read ++ (values s₂).drop read.length := by
        conv_lhs => rw [← List.take_append_drop read.length (values s₂), hsame]
      refine ⟨?_, hother s₂ _ hs₂ hsplit⟩
      rw [hsplit, List.length_append]
      exact Nat.le_add_right _ _
  · have hcalls := Machine.calls_of_values_eq (m := m₁) hs₁ hs₂ hvalues n
    rwa [hm₁] at hcalls

/-- A program that reads two numbers, on an input with lines that are passed over and on one
without. -/
theorem runs_depend_on_values_rejected : ∃ m₁ m₂,
    Machine.load (0x1e :: 0 :: 0x1e :: 1 :: List.replicate 252 0) (List.replicate 13 0) 4
      "7\n9".toList = .ok m₁ ∧
    Machine.load (0x1e :: 0 :: 0x1e :: 1 :: List.replicate 252 0) (List.replicate 13 0) 4
      "x\r\n 007 \r\n\n256\n+9\n".toList = .ok m₂ ∧
    ∀ n, (m₂.calls n).1 = (m₁.calls n).1 := by
  have hs₁ : Short "7\n9".toList := .of_length (by decide)
  have hs₂ : Short "x\r\n 007 \r\n\n256\n+9\n".toList := .of_length (by decide)
  obtain ⟨m₁, hload, -⟩ := Machine.exists_load
    (by decide +kernel : (0x1e :: 0 :: 0x1e :: 1 :: List.replicate 252 (0 : UInt8)).length = memorySize)
    (by decide : (List.replicate 13 (0 : UInt8)).length = registerCount)
    (by decide : 4 ≤ memorySize) hs₁
  obtain ⟨m₂, hload₂, -, hsame, hvalues⟩ := runs_depend_on_values hload hs₁ hs₂
  have h₁ := hvalues [(['7'], ['\n'])] ['9'] (by simp [IsEnding]) (by decide)
  have h₂ := hvalues [(['x'], ['\r', '\n']), (" 007 ".toList, ['\r', '\n']), ([], ['\n']),
    ("256".toList, ['\n']), ("+9".toList, ['\n'])] [] (by simp [IsEnding]) (by decide)
  have hread : values "x\r\n 007 \r\n\n256\n+9\n".toList = values "7\n9".toList :=
    h₂.trans (.trans (by decide +kernel) h₁.symm)
  exact ⟨m₁, m₂, hload, hload₂, fun n => (hsame hread n).1⟩

end Asm256
