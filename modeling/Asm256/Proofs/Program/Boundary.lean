/-
Machines between two statements.

A machine that has the code of an assembly, and whose pc is where a statement
starts, executes that statement; its pc is then where a statement starts again,
or behind the last one:
* `Machine.Runs.step_at` — the step of a machine in front of a statement;
* `Machine.Runs.step_behind` — the step of a machine behind all statements;
* `Machine.Between.exists_next` — where a step leads;
* `Assembly.Sound.address` — labels stand for the starts of statements.
-/
import Asm256.Proofs.Machine.Frame
import Asm256.Proofs.Program.Reading

namespace Asm256

open Statement (totalSize codeOf)

/-! ### Labels -/

/-- A command that branches is that of a mnemonic with its condition, and has its target from its
operand. -/
theorem Mnemonic.of_command?_branch {m : Mnemonic} {os : List Operand} {cond : Condition}
    {name : String} (h : m.command? os = some (.branch cond name)) :
    m.condition? = some cond ∧ os = [.label name] := by
  revert h
  fun_cases Mnemonic.command? m os <;> intro h
  -- the case of a mnemonic with a condition, and one operand
  case case12 l _ _ _ _ =>
    obtain ⟨_, hcond, h⟩ := Option.bind_eq_some_iff.1 h
    obtain ⟨target, ht, h⟩ := Option.bind_eq_some_iff.1 h
    cases h
    cases l with
    | label =>
      cases ht
      exact ⟨hcond, rfl⟩
    | _ => cases ht
  -- no other command is a branch
  all_goals simp [Option.bind_eq_some_iff] at h

theorem Mnemonic.mem_of_command?_branch {m : Mnemonic} {os : List Operand} {cond : Condition}
    {name : String} (h : m.command? os = some (.branch cond name)) : .label name ∈ os := by
  rw [(of_command?_branch h).2]
  exact List.mem_singleton_self _

namespace Assembly.Sound

variable {tree : SignatureTree} {a : Assembly} (h : a.Sound tree)

include h

theorem totalSize_le : totalSize a.statements ≤ memorySize := by
  rw [← h.codeSize_eq]
  exact a.image.codeSize_le

/-- **Labels stand for the starts of statements**, or for the end of the last one. -/
theorem address {s : Statement} (hs : s ∈ a.statements) {o : Spelled Operand} (ho : o ∈ s.operands)
    {name : String} (hname : o.value = .label name) : ∃ l front back,
      a.labels.find? name = some l ∧ a.statements = front ++ back ∧ l.address = totalSize front ∧
      (∀ s ∈ front, s.mnemonic.pos.Before l.pos) ∧ (∀ s ∈ back, l.pos.Before s.mnemonic.pos) := by
  obtain ⟨l, hl⟩ := (h.encodable s hs).2 o ho name hname
  obtain ⟨front, back, hsplit⟩ := h.label l (List.mem_of_find?_eq_some hl)
  exact ⟨l, front, back, hl, hsplit⟩

end Assembly.Sound

/-- The byte of a label is its address modulo 256. -/
theorem LabelTable.toNat_byte {labels : LabelTable} {name : String} {l : Label} {n : Nat}
    (hl : labels.find? name = some l) (ha : l.address = n) : (labels.byte name).toNat = n % 256 := by
  have hb := Byte.toNat_wrap l.address
  have heq : (Operand.label name).resolve labels = l.address := by simp [Operand.resolve, hl]
  rw [LabelTable.byte, heq]
  omega

/-! ### Steps between statements -/

namespace Machine

variable {tree : SignatureTree} {a : Assembly} {m m' : Machine} {s : Statement}
  {front back : List Statement} {op : Opcode} {t : Trap}

/-- The machine has the code of an assembly. -/
structure Runs (a : Assembly) (m : Machine) : Prop where
  codeSize_eq : m.codeSize = a.image.codeSize
  code_eq : m.code = a.image.code

theorem runs_ofImage (a : Assembly) (input : List Char) : Runs a (ofImage a.image input) :=
  ⟨rfl, rfl⟩

/-- The bytes ahead of a machine between statements are those of the statements that follow. -/
theorem Runs.ahead (hm : m.Runs a) (h : a.Sound tree) (heq : a.statements = front ++ back)
    (hpc : m.pc = totalSize front) : m.ahead = codeOf tree a.labels back := by
  have hfront : ∀ s ∈ front, s.Encodable tree a.labels := fun s hs =>
    h.encodable s (by rw [heq]; exact List.mem_append_left _ hs)
  rw [Machine.ahead, hm.code_eq, h.image.code, heq, Statement.codeOf_append, hpc,
    ← Statement.length_codeOf hfront, List.drop_left]

/-- **A machine in front of a statement performs its command.** -/
theorem Runs.step_at (hm : m.Runs a) (h : a.Sound .standard) (heq : a.statements = front ++ s :: back)
    (hpc : m.pc = totalSize front) : ∃ op c,
      SignatureTree.standard.find? s.mnemonic.value s.kinds = some op ∧ s.command? = some c ∧
      m.step = (m.advance s.size).perform op (c.map a.labels.byte) := by
  have hs : s ∈ a.statements := by simp [heq]
  obtain ⟨op, c, hop, hcode, hc, hb⟩ := (h.encodable s hs).command (h.writable s hs)
  have hahead : m.ahead = op.toByte :: (s.operandBytes a.labels ++ codeOf .standard a.labels back) := by
    rw [hm.ahead h heq hpc, Statement.codeOf_cons, hcode, List.cons_append]
  refine ⟨op, c, hop, hc, ?_⟩
  rw [step_eq hahead hb, Nat.add_comm, Statement.length_operandBytes]

/-- A machine behind all statements finds no instruction. -/
theorem Runs.step_behind (hm : m.Runs a) (h : a.Sound tree) (hpc : m.pc = totalSize a.statements) :
    m.step = .error (.fault (.readPastMemory m.pc)) m :=
  step_end (hm.ahead h (List.append_nil _).symm hpc)

/-- The machine has the code of an assembly, and stands where a statement starts or behind all. -/
structure Between (a : Assembly) (m : Machine) : Prop extends Runs a m where
  boundary : ∃ front back, a.statements = front ++ back ∧ m.pc = totalSize front

theorem between_start {m : Machine} (hm : m.Runs a) (hpc : m.pc = 0) : m.Between a :=
  ⟨hm, [], a.statements, rfl, hpc⟩

/-- **What a step that succeeds comes to**: it is that of a statement, and leads behind it, or to the
byte of the label that it names. -/
theorem Between.exists_next (hm : m.Between a) (h : a.Sound .standard) (hstep : m.step = .ok op m') :
    m'.Runs a ∧ ∃ front s back, a.statements = front ++ s :: back ∧ m.pc = totalSize front ∧
      (m'.pc = m.pc + s.size ∨ ∃ cond name, s.command? = some (.branch cond name) ∧
        m'.pc = (a.labels.byte name).toNat) := by
  obtain ⟨hruns, front, back, heq, hpc⟩ := hm
  rcases back with _ | ⟨s, back⟩
  · rw [hruns.step_behind h (by rw [heq, List.append_nil, hpc])] at hstep
    cases hstep
  obtain ⟨op', c, -, hc, hs⟩ := hruns.step_at h heq hpc
  rw [hs] at hstep
  obtain ⟨-, m₁, hrun, rfl⟩ := run_of_perform_ok hstep
  obtain ⟨hsize, hcode, hnext⟩ := Command.perform_ok hrun
  refine ⟨⟨hsize.trans hruns.codeSize_eq, hcode.trans hruns.code_eq⟩, front, s, back, heq, hpc, ?_⟩
  -- where a step leads depends on what kind of command it was, and not on where it was
  rcases hnext with hnext | ⟨cond, target, hbranch, hnext⟩
  · exact .inl hnext
  · obtain ⟨name, rfl, rfl⟩ := Command.map_eq_branch hbranch
    exact .inr ⟨cond, name, hc, hnext⟩

/-- **A step goes from one statement to another**, or to the end of the last one. -/
theorem Between.step_ok (hm : m.Between a) (h : a.Sound .standard) (hstep : m.step = .ok op m') :
    m'.Between a := by
  obtain ⟨hruns, front, s, back, heq, hpc, hnext⟩ := hm.exists_next h hstep
  refine ⟨hruns, ?_⟩
  rcases hnext with hnext | ⟨cond, name, hc, hnext⟩
  · -- the next statement is the one behind `s`
    refine ⟨front ++ [s], back, by simp [heq], ?_⟩
    rw [hnext, hpc]
    simp
  · -- the next statement is the one behind the label, or the first one if the label is at the
    -- end of the memory
    obtain ⟨o, ho, hname⟩ := List.mem_map.1 (Mnemonic.mem_of_command?_branch hc)
    obtain ⟨l, front', back', hl, heq', ha, -⟩ := h.address (by simp [heq]) ho hname
    have hle : totalSize a.statements ≤ 256 := h.totalSize_le
    rw [heq', Statement.totalSize_append] at hle
    rw [LabelTable.toNat_byte hl ha] at hnext
    by_cases hlt : totalSize front' < 256
    · exact ⟨front', back', heq', by rw [hnext, Nat.mod_eq_of_lt hlt]⟩
    · refine ⟨[], a.statements, rfl, ?_⟩
      rw [hnext, Statement.totalSize_nil]
      omega

/-- A step that fails finds no instruction because it is behind the last one, and changes nothing,
or fails on its data. -/
theorem Between.step_error (hm : m.Between a) (h : a.Sound .standard)
    (hstep : m.step = .error t m') :
    (m.pc = totalSize a.statements ∧ t = .fault (.readPastMemory m.pc) ∧ m' = m) ∨ ¬ t.OfCode := by
  obtain ⟨hruns, front, back, heq, hpc⟩ := hm
  rcases back with _ | ⟨s, back⟩
  · have hend : m.pc = totalSize a.statements := by rw [heq, List.append_nil, hpc]
    rw [hruns.step_behind h hend] at hstep
    cases hstep
    exact .inl ⟨hend, rfl, rfl⟩
  · obtain ⟨op', c, -, -, hs⟩ := hruns.step_at h heq hpc
    rw [hs] at hstep
    exact .inr (Command.perform_error (run_of_perform_error hstep)).2

/-- The lines of the input stay short, and no numeral on them is too long. -/
theorem Between.step_short (hm : m.Between a) (h : a.Sound .standard)
    (hshort : LineStream.Short m.input) :
    (∀ op m', m.step = .ok op m' → LineStream.Short m'.input) ∧
      ∀ t m', m.step = .error t m' → ∀ e, t ≠ .tooLong e := by
  obtain ⟨hruns, front, back, heq, hpc⟩ := hm
  rcases back with _ | ⟨s, back⟩
  · rw [hruns.step_behind h (by rw [heq, List.append_nil, hpc])]
    constructor
    · intro op m' hstep
      cases hstep
    · intro t m' hstep e
      cases hstep
      simp
  · obtain ⟨op', c, -, -, hs⟩ := hruns.step_at h heq hpc
    rw [hs]
    -- a branch moves the pc only, and the input does not depend on it
    have hp : Exec.Preserves _ _ (c.map a.labels.byte).perform :=
      Command.preserves_perform stable_short fun _ _ _ _ hm => hm
    have hadvance : LineStream.Short (m.advance s.size).input := hshort
    constructor
    · intro op m' hstep
      obtain ⟨-, m₁, hrun, rfl⟩ := run_of_perform_ok hstep
      have hnext := hp.ok hadvance hrun
      exact hnext
    · intro t m' hstep
      exact (hp.error hadvance (run_of_perform_error hstep)).2

/-! ### Many steps -/

variable {n : Nat}

/-- A machine between statements stands between statements after any number of steps. -/
theorem Between.iterate (hm : m.Between a) (h : a.Sound .standard)
    (hrun : m.iterate n = .ok () m') : m'.Between a := by
  induction n generalizing m with
  | zero =>
    rw [iterate_zero] at hrun
    cases hrun
    exact hm
  | succ n ih =>
    rw [iterate_succ] at hrun
    cases hs : m.step with
    | error t m₁ =>
      rw [hs] at hrun
      cases hrun
    | ok op m₁ =>
      rw [hs] at hrun
      exact ih (hm.step_ok h hs) hrun

/-- When lines are short, no number of steps comes to a numeral that is too long. -/
theorem Between.iterate_short (hm : m.Between a) (h : a.Sound .standard)
    (hshort : LineStream.Short m.input) (hrun : m.iterate n = .error t m') (e : Decimal.TooLong) :
    t ≠ .tooLong e := by
  induction n generalizing m with
  | zero =>
    rw [iterate_zero] at hrun
    cases hrun
  | succ n ih =>
    rw [iterate_succ] at hrun
    obtain ⟨hok, herror⟩ := hm.step_short h hshort
    cases hs : m.step with
    | error t' m₁ =>
      rw [hs] at hrun
      cases hrun
      exact herror t m' hs e
    | ok op m₁ =>
      rw [hs] at hrun
      exact ih (hm.step_ok h hs) (hok op m₁ hs) hrun

/-- A run that fails does so in one of its steps. -/
theorem exists_iterate_of_run {limit : Nat} (hrun : m.run limit = (.failed t, m')) :
    ∃ n, m.iterate n = .error t m' := by
  induction limit generalizing m with
  | zero =>
    rw [run] at hrun
    split at hrun <;> cases hrun
  | succ limit ih =>
    rw [run] at hrun
    split at hrun
    · cases hrun
    · cases hs : m.step with
      | error t' m₁ =>
        rw [hs] at hrun
        cases hrun
        exact ⟨1, by rw [iterate_succ, hs]⟩
      | ok op m₁ =>
        rw [hs] at hrun
        obtain ⟨n, hn⟩ := ih hrun
        exact ⟨n + 1, by rw [iterate_succ, hs]; exact hn⟩

end Machine

end Asm256
