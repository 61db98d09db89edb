/-
Programs that only branch forward.

The branch at an address of the code has its target in the byte behind it
(`Image.target?`).  When all these targets are behind their branches
(`Assembly.Forward`), each step leads from one statement to a later one, whether
it branches or not.  So no statement is executed twice, and a run ends:
* `Assembly.Sound.target?_eq_some_iff` — the targets in the code are those of the statements;
* `Machine.Between.step_forward` — a step leads to a later statement;
* `Machine.Between.pairwise_addresses` — the addresses of the instructions that a run executes.

The main result is `forward_programs_end`.
-/
import Asm256.Proofs.Machine.Decoding
import Asm256.Proofs.Program.Targets

namespace Asm256

open Statement (totalSize codeOf)

/-! ### Forward branches -/

/-- The target of the branch at an address of the code. -/
def Image.target? (i : Image) (address : Nat) : Option UInt8 := do
  let op ← Opcode.ofByte? (← i.code[address]?)
  match op.operation with
  | .branch _ => i.code[address + 1]?
  | _ => none

namespace Assembly

variable {a : Assembly} {address : Nat} {front back : List Statement} {s : Statement}

/-- Where the statements of an assembly start. -/
def starts (a : Assembly) : List Nat :=
  (List.range a.statements.length).map fun i => totalSize (a.statements.take i)

@[simp] theorem length_starts (a : Assembly) : a.starts.length = a.statements.length := by
  rw [starts, List.length_map, List.length_range]

theorem mem_starts_iff : address ∈ a.starts ↔
    ∃ front s back, a.statements = front ++ s :: back ∧ address = totalSize front := by
  simp only [starts, List.mem_map, List.mem_range]
  constructor
  · rintro ⟨i, hi, rfl⟩
    refine ⟨a.statements.take i, a.statements[i], a.statements.drop (i + 1), ?_, rfl⟩
    rw [List.getElem_cons_drop, List.take_append_drop]
  · rintro ⟨front, s, back, heq, rfl⟩
    refine ⟨front.length, ?_, ?_⟩
    · rw [heq]
      simp
    · rw [heq, List.take_left]

/-- The target of every branch is behind the branch. -/
def Forward (a : Assembly) : Prop :=
  ∀ address ∈ a.starts, ∀ target ∈ a.image.target? address, address < target.toNat

instance (a : Assembly) : Decidable a.Forward :=
  inferInstanceAs (Decidable (∀ address ∈ a.starts, ∀ target ∈ a.image.target? address, _))

namespace Sound

variable (h : a.Sound .standard)

include h

/-- **The targets in the code are those of the statements** that branch: the bytes of their
labels. -/
theorem target?_eq_some_iff (hs : a.statements = front ++ s :: back) {b : UInt8} :
    a.image.target? (totalSize front) = some b ↔
      ∃ cond name, s.command? = some (.branch cond name) ∧ b = a.labels.byte name := by
  have hmem : s ∈ a.statements := by simp [hs]
  obtain ⟨op, c, -, hcode, hc, hb⟩ := (h.encodable s hmem).command (h.writable s hmem)
  obtain ⟨hop, hbytes⟩ := Operation.command?_eq_some_iff.1 hb
  have hfront : (codeOf .standard a.labels front).length = totalSize front :=
    Statement.length_codeOf fun s hs' => h.encodable s (by rw [hs]; exact List.mem_append_left _ hs')
  -- the code from the statement on
  have hdrop : ∀ k, a.image.code[totalSize front + k]? =
      (op.toByte :: ((c.map a.labels.byte).bytes ++ codeOf .standard a.labels back))[k]? := by
    intro k
    rw [h.image.code, hs, Statement.codeOf_append, Statement.codeOf_cons, hcode, hbytes, ← hfront,
      List.getElem?_append_right (Nat.le_add_right _ _), Nat.add_sub_cancel_left, List.cons_append]
  have hfirst := hdrop 0
  rw [Nat.add_zero, List.getElem?_cons_zero] at hfirst
  have hsecond := hdrop 1
  rw [List.getElem?_cons_succ] at hsecond
  simp only [Image.target?, Option.bind_eq_bind, hfirst, Option.bind_some, Opcode.ofByte?_toByte,
    hop, hsecond, hc, Option.some_inj]
  cases c <;> simp [Command.map, Command.operation, Command.bytes, eq_comm]

end Sound

end Assembly

/-- A program without branches only branches forward. -/
theorem Assembly.Sound.forward_of_no_branch {a : Assembly} (h : a.Sound .standard)
    (hnone : ∀ s ∈ a.statements, s.mnemonic.value.condition? = none) : a.Forward := by
  intro address haddress target htarget
  obtain ⟨front, s, back, hs, rfl⟩ := mem_starts_iff.1 haddress
  obtain ⟨cond, name, hc, -⟩ := (h.target?_eq_some_iff hs).1 htarget
  obtain ⟨hcond, -⟩ := Mnemonic.of_command?_branch hc
  rw [hnone s (by simp [hs])] at hcond
  cases hcond

namespace Machine

variable {a : Assembly} {m m' : Machine} {op : Opcode} {t : Trap}

/-! ### Counted steps -/

/-- Nothing that an instruction does changes the number of instructions executed. -/
theorem cycle_steps (k : Nat) :
    Exec.Cycle (fun m => m.steps = k) (fun m => m.steps = k) fun _ => True where
  registers _ h := h
  flags _ _ h := h
  halted h := h
  output _ h := h
  input h := h
  data _ _ _ h := h
  outOfBoundsRead _ _ _ := trivial
  outOfBoundsWrite _ _ _ := trivial
  unreadable _ _ := trivial
  advance h _ := h
  readPastMemory _ _ := trivial
  invalidRegister _ _ := trivial
  enter h _ := h
  leave h := h
  taken _ h := h
  skipped h := h
  behind _ _ := trivial
  invalidOpcode _ _ := trivial

theorem steps_of_step_ok (h : m.step = .ok op m') : m'.steps = m.steps + 1 := by
  obtain ⟨m₁, h₁, rfl⟩ := (cycle_steps m.steps).step_ok rfl h
  exact congrArg (· + 1) h₁

theorem steps_of_step_error (h : m.step = .error t m') : m'.steps = m.steps :=
  ((cycle_steps m.steps).step_error rfl h).1

/-! ### Steps forward -/

/-- Where there is code ahead, a statement starts. -/
theorem Between.mem_starts (hm : m.Between a) (h : a.Sound .standard) (hlt : m.pc < m.codeSize) :
    m.pc ∈ a.starts := by
  obtain ⟨hruns, front, back, heq, hpc⟩ := hm
  cases back with
  | nil =>
    rw [List.append_nil] at heq
    rw [hruns.codeSize_eq, h.codeSize_eq, heq, hpc] at hlt
    exact absurd hlt (Nat.lt_irrefl _)
  | cons s back => exact Assembly.mem_starts_iff.2 ⟨front, s, back, heq, hpc⟩

/-- **A step leads to a later statement**, or behind the last one, if all branches do. -/
theorem Between.step_forward (hm : m.Between a) (h : a.Sound .standard) (hf : a.Forward)
    (hstep : m.step = .ok op m') : m.pc ∈ a.starts ∧ m.pc < m'.pc := by
  obtain ⟨-, front, s, back, heq, hpc, hnext⟩ := hm.exists_next h hstep
  have hstart : m.pc ∈ a.starts := Assembly.mem_starts_iff.2 ⟨front, s, back, heq, hpc⟩
  refine ⟨hstart, ?_⟩
  rcases hnext with hnext | ⟨cond, name, hc, hnext⟩
  · rw [hnext]
    exact Nat.lt_add_of_pos_right s.size_pos
  · rw [hnext]
    refine hf _ hstart _ ?_
    rw [hpc, Option.mem_def]
    exact (h.target?_eq_some_iff heq).2 ⟨cond, name, hc, rfl⟩

/-! ### Runs -/

/-- The addresses of the instructions that a run of at most `limit` steps executes, one after the
other.  The last of them may fail; behind the code there is none. -/
def addresses : (limit : Nat) → Machine → List Nat
  | 0, _ => []
  | limit + 1, m =>
      if m.halted then []
      else match m.step with
        | .ok _ m' => m.pc :: addresses limit m'
        | .error _ _ => if m.pc < m.codeSize then [m.pc] else []

/-- The next instruction that a run executes is at the pc of the machine that it has come to. -/
theorem run_of_getElem?_addresses {limit k address : Nat}
    (h : (m.addresses limit)[k]? = some address) :
    (m.run k).1 = .running ∧ (m.run k).2.pc = address := by
  induction limit generalizing m k with
  | zero => cases h
  | succ limit ih =>
    rw [addresses] at h
    by_cases hh : m.halted = true
    · rw [if_pos hh] at h
      cases h
    rw [if_neg hh] at h
    -- in front of its first step, the run has come to `m`
    have hfirst : m.pc = address → (m.run 0).1 = .running ∧ (m.run 0).2.pc = address := by
      intro hpc
      rw [run, if_neg hh]
      exact ⟨rfl, hpc⟩
    cases hs : m.step with
    | ok op m' =>
      rw [hs] at h
      cases k with
      | zero => exact hfirst (Option.some.inj h)
      | succ k =>
        rw [run, if_neg hh, hs]
        exact ih h
    | error t m' =>
      rw [hs] at h
      by_cases hlt : m.pc < m.codeSize
      · simp only [if_pos hlt] at h
        cases k with
        | zero => exact hfirst (Option.some.inj h)
        | succ k => cases h
      · simp only [if_neg hlt] at h
        cases h

/-- Each instruction that a run executes is counted, unless it fails. -/
theorem steps_run (limit : Nat) (m : Machine) :
    (m.run limit).2.steps = m.steps + (m.addresses limit).length ∨
      ((∃ t, (m.run limit).1 = .failed t) ∧
        (m.run limit).2.steps + 1 = m.steps + (m.addresses limit).length) := by
  induction limit generalizing m with
  | zero => exact .inl rfl
  | succ limit ih =>
    rw [run, addresses]
    by_cases hh : m.halted = true
    · rw [if_pos hh, if_pos hh]
      exact .inl rfl
    rw [if_neg hh, if_neg hh]
    cases hs : m.step with
    | ok op m' =>
      have hsteps := steps_of_step_ok hs
      rcases ih m' with hcount | ⟨hfailed, hcount⟩
      · refine .inl (hcount.trans ?_)
        rw [hsteps, List.length_cons]
        omega
      · refine .inr ⟨hfailed, hcount.trans ?_⟩
        rw [hsteps, List.length_cons]
        omega
    | error t m' =>
      have hsteps := steps_of_step_error hs
      -- an instruction that fails is not counted, and behind the code there is none
      by_cases hlt : m.pc < m.codeSize
      · rw [if_pos hlt]
        exact .inr ⟨⟨t, rfl⟩, congrArg (· + 1) hsteps⟩
      · rw [if_neg hlt]
        exact .inl hsteps

/-- A run that has not ended has executed as many instructions as it could. -/
theorem length_addresses_of_running {limit : Nat} (h : (m.run limit).1 = .running) :
    (m.addresses limit).length = limit := by
  induction limit generalizing m with
  | zero => rfl
  | succ limit ih =>
    rw [run] at h
    rw [addresses]
    by_cases hh : m.halted = true
    · rw [if_pos hh] at h
      cases h
    rw [if_neg hh] at h ⊢
    cases hs : m.step with
    | ok op m' =>
      rw [hs] at h
      rw [List.length_cons, ih h]
    | error t m' =>
      rw [hs] at h
      cases h

/-- **A run executes statements from front to back**, if all branches lead forward. -/
theorem Between.pairwise_addresses (hm : m.Between a) (h : a.Sound .standard) (hf : a.Forward)
    (limit : Nat) : (m.addresses limit).Pairwise (· < ·) ∧
      ∀ address ∈ m.addresses limit, m.pc ≤ address ∧ address ∈ a.starts := by
  induction limit generalizing m with
  | zero => simp [addresses]
  | succ limit ih =>
    rw [addresses]
    by_cases hh : m.halted = true
    · simp [hh]
    rw [if_neg hh]
    cases hs : m.step with
    | ok op m' =>
      obtain ⟨hstart, hlt⟩ := hm.step_forward h hf hs
      obtain ⟨hpairwise, hmem⟩ := ih (hm.step_ok h hs)
      -- all that is executed later is at the next statement or behind it
      have hbehind : ∀ address ∈ m'.addresses limit, m.pc < address := by
        intro address haddress
        exact lt_of_lt_of_le hlt (hmem address haddress).1
      refine ⟨List.pairwise_cons.2 ⟨hbehind, hpairwise⟩, List.forall_mem_cons.2 ⟨⟨le_rfl, hstart⟩, ?_⟩⟩
      intro address haddress
      exact ⟨(hbehind address haddress).le, (hmem address haddress).2⟩
    | error t m' =>
      by_cases hlt : m.pc < m.codeSize
      · simp [hlt, hm.mem_starts h hlt]
      · simp [hlt]

/-- So it executes each statement at most once. -/
theorem Between.length_addresses_le (hm : m.Between a) (h : a.Sound .standard) (hf : a.Forward)
    (limit : Nat) : (m.addresses limit).length ≤ a.statements.length := by
  obtain ⟨hpairwise, hmem⟩ := hm.pairwise_addresses h hf limit
  have hnodup : (m.addresses limit).Nodup := hpairwise.imp ne_of_lt
  have hsubset : m.addresses limit ⊆ a.starts := fun address haddress => (hmem address haddress).2
  calc (m.addresses limit).length ≤ a.starts.length := (hnodup.subperm hsubset).length_le
    _ = a.statements.length := a.length_starts

end Machine

/-- **Programs that only branch forward end.**  Take a text that is assembled, such that the target
byte of every branch in the code is greater than the address of the branch, as for a program without
branches.  Then for every input
* the addresses of the instructions that a run executes increase, and each is that of a statement,
  and the pc of the machine that the run has come to;
* so there are at most as many as the program has statements; all of them are counted, unless the
  last one fails;
* and a run that may take more steps than that has halted or failed. -/
theorem forward_programs_end {w : Nat} {text : List Char} {a : Assembly}
    (h : assemble .standard w text = .ok a) :
    ((∀ s ∈ a.statements, s.mnemonic.value.condition? = none) → a.Forward) ∧
    (a.Forward → ∀ input limit,
      let m := Machine.ofImage a.image input
      (m.addresses limit).Pairwise (· < ·) ∧
      (∀ address ∈ m.addresses limit, address ∈ a.starts) ∧
      (∀ k address, (m.addresses limit)[k]? = some address →
        (m.run k).1 = .running ∧ (m.run k).2.pc = address) ∧
      (m.addresses limit).length ≤ a.statements.length ∧
      ((m.run limit).2.steps = (m.addresses limit).length ∨
        ((∃ t, (m.run limit).1 = .failed t) ∧
          (m.run limit).2.steps + 1 = (m.addresses limit).length)) ∧
      (a.statements.length < limit →
        (m.run limit).1 = .halted ∨ ∃ t, (m.run limit).1 = .failed t)) := by
  have hsound := Assembly.sound_of_assemble h
  refine ⟨hsound.forward_of_no_branch, fun hf input limit => ?_⟩
  intro m
  have hm : m.Between a := Machine.between_start (Machine.runs_ofImage a input) rfl
  obtain ⟨hpairwise, hmem⟩ := hm.pairwise_addresses hsound hf limit
  have hlength := hm.length_addresses_le hsound hf limit
  have hsteps := m.steps_run limit
  rw [show m.steps = 0 from rfl, Nat.zero_add] at hsteps
  refine ⟨hpairwise, fun address haddress => (hmem address haddress).2,
    fun k address => Machine.run_of_getElem?_addresses, hlength, hsteps, fun hlimit => ?_⟩
  cases hend : (m.run limit).1 with
  | halted => exact .inl rfl
  | failed t => exact .inr ⟨t, rfl⟩
  | running =>
    -- it would have executed more instructions than there are
    have hall := Machine.length_addresses_of_running hend
    omega

/-- A branch over a statement that is taken, and a program without branches that fails on its first
statement, for there is no input. -/
theorem forward_programs_end_over_a_print :
    (∃ a, assemble .standard 4 "CMP R0, #0;BEQ x;PRINT R0;x:HALT".toList = .ok a ∧ a.Forward ∧
      let m := Machine.ofImage a.image []
      m.addresses 5 = [0, 3, 7] ∧ (m.addresses 5).Pairwise (· < ·) ∧
        (m.addresses 5).length ≤ a.statements.length ∧
        ((m.run 5).1 = .halted ∨ ∃ t, (m.run 5).1 = .failed t)) ∧
    ∃ a, assemble .standard 4 "INPUT R1;HALT".toList = .ok a ∧ a.Forward ∧
      let m := Machine.ofImage a.image []
      m.addresses 3 = [0] ∧ (m.run 3).2.steps + 1 = (m.addresses 3).length ∧
        ((m.run 3).1 = .halted ∨ ∃ t, (m.run 3).1 = .failed t) := by
  constructor
  · obtain ⟨a, ha, hrun⟩ := exists_ok_of_any
      (x := assemble .standard 4 "CMP R0, #0;BEQ x;PRINT R0;x:HALT".toList)
      (p := fun a => decide a.Forward && decide (a.statements.length = 4) &&
        decide ((Machine.ofImage a.image []).addresses 5 = [0, 3, 7])) (by decide +kernel)
    simp only [Bool.and_eq_true, decide_eq_true_eq] at hrun
    obtain ⟨⟨hf, hlength⟩, haddresses⟩ := hrun
    obtain ⟨-, hend⟩ := forward_programs_end ha
    obtain ⟨hpairwise, -, -, hle, -, hended⟩ := hend hf [] 5
    exact ⟨a, ha, hf, haddresses, hpairwise, hle, hended (by omega)⟩
  · obtain ⟨a, ha, hrun⟩ := exists_ok_of_any
      (x := assemble .standard 4 "INPUT R1;HALT".toList)
      (p := fun a => decide (∀ s ∈ a.statements, s.mnemonic.value.condition? = none) &&
        decide (a.statements.length = 2) && decide ((Machine.ofImage a.image []).addresses 3 = [0]) &&
        decide (((Machine.ofImage a.image []).run 3).2.steps = 0)) (by decide +kernel)
    simp only [Bool.and_eq_true, decide_eq_true_eq] at hrun
    obtain ⟨⟨⟨hnone, hlength⟩, haddresses⟩, hsteps⟩ := hrun
    obtain ⟨hforward, hend⟩ := forward_programs_end ha
    have hf := hforward hnone
    obtain ⟨-, -, -, -, -, hended⟩ := hend hf [] 3
    exact ⟨a, ha, hf, haddresses, by rw [hsteps, haddresses]; rfl, hended (by omega)⟩

end Asm256
