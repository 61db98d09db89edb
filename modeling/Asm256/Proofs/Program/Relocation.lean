/-
Programs do the same behind `NOP`s.

With `NOP`s in front of it a program does what it does alone, as long as its
data has room: behind the `NOP`s the two machines are in lockstep, for any
number of steps.
* `Assembly.Padded.split`, `Assembly.Padded.toNat_byte` — where statements and labels are;
* `Assembly.Padded.step` — one step from statements that correspond;
* `Assembly.Padded.iterate`, `Assembly.Padded.run` — any number of steps, and runs;
* `assemble_nops` — all of it for a text that is assembled.
-/
import Asm256.Proofs.Machine.Relocation
import Asm256.Proofs.Program.Boundary
import Asm256.Proofs.Script.Padding

namespace Asm256

open Statement (totalSize)

/-! ### Statements that are the same instruction -/

namespace Statement

variable {s s' : Statement} {ss ss' : List Statement}

theorem size_of_instruction (h : s'.instruction = s.instruction) : s'.size = s.size := by
  have hlen := congrArg (fun i => i.operands.length) h
  simp only [instruction, List.length_map] at hlen
  rw [size, size, hlen]

theorem command?_of_instruction (h : s'.instruction = s.instruction) :
    s'.command? = s.command? :=
  congrArg (fun i : Instruction => i.mnemonic.command? i.operands) h

theorem find?_of_instruction (h : s'.instruction = s.instruction) (tree : SignatureTree) :
    tree.find? s'.mnemonic.value s'.kinds = tree.find? s.mnemonic.value s.kinds := by
  rw [← s'.kinds_instruction, ← s.kinds_instruction]
  exact congrArg (fun i : Instruction => tree.find? i.mnemonic i.kinds) h

theorem size_of_nop (h : s.instruction = Script.nop) : s.size = 1 :=
  size_of_instruction (s := ⟨⟨.nop, "", .start⟩, []⟩) h

theorem command?_of_nop (h : s.instruction = Script.nop) : s.command? = some .nop :=
  command?_of_instruction (s := ⟨⟨.nop, "", .start⟩, []⟩) h

theorem totalSize_of_instruction (h : ss'.map instruction = ss.map instruction) :
    totalSize ss' = totalSize ss := by
  induction ss generalizing ss' with
  | nil =>
    obtain rfl := List.map_eq_nil_iff.1 h
    rfl
  | cons s ss ih =>
    obtain ⟨s', rest, rfl, hs, hrest⟩ := List.map_eq_cons_iff.1 h
    rw [totalSize_cons, totalSize_cons, size_of_instruction hs, ih hrest]

theorem totalSize_nops {k : Nat} (h : ss.map instruction = List.replicate k Script.nop) :
    totalSize ss = k := by
  induction k generalizing ss with
  | zero =>
    obtain rfl := List.map_eq_nil_iff.1 h
    rfl
  | succ k ih =>
    obtain ⟨s, rest, rfl, hs, hrest⟩ := List.map_eq_cons_iff.1 h
    rw [totalSize_cons, size_of_nop hs, ih hrest, Nat.add_comm]

end Statement

namespace Assembly.Padded

variable {k : Nat} {a a' : Assembly} {front back : List Statement} {s : Statement}

/-- The statements of the program are behind the `NOP`s. -/
theorem split (hp : a.Padded k a') (heq : a.statements = front ++ back) :
    ∃ front' back', a'.statements = front' ++ back' ∧ totalSize front' = totalSize front + k ∧
      back'.map Statement.instruction = back.map Statement.instruction := by
  obtain ⟨nops, rest, hstatements, hnops, hrest⟩ := hp.statements
  rw [heq, List.map_append] at hrest
  obtain ⟨front', back', rfl, hfront, hback⟩ := List.map_eq_append_iff.1 hrest
  refine ⟨nops ++ front', back', by rw [hstatements, List.append_assoc], ?_, hback⟩
  rw [Statement.totalSize_append, Statement.totalSize_nops hnops,
    Statement.totalSize_of_instruction hfront, Nat.add_comm]

/-- **The byte of a label is larger by the `NOP`s in front.** -/
theorem toNat_byte (hp : a.Padded k a') (h : a.Sound .standard)
    (hk : a.image.codeSize + k < memorySize) (hs : s ∈ a.statements) {o : Spelled Operand}
    (ho : o ∈ s.operands) {name : String} (hname : o.value = .label name) :
    (a'.labels.byte name).toNat = (a.labels.byte name).toNat + k := by
  obtain ⟨l, front, back, hl, heq, haddress, -⟩ := h.address hs ho hname
  have hmoved := hp.address name
  rw [hl, Option.map_some, haddress] at hmoved
  obtain ⟨l', hl', haddress'⟩ := Option.map_eq_some_iff.1 hmoved
  have hle : totalSize front ≤ a.image.codeSize := by
    rw [h.codeSize_eq, heq, Statement.totalSize_append]
    exact Nat.le_add_right _ _
  have hmemory : memorySize = 256 := rfl
  rw [LabelTable.toNat_byte hl haddress,
    LabelTable.toNat_byte hl' (haddress'.trans (Nat.cast_add _ k).symm)]
  omega

/-! ### Steps and runs -/

variable {m m' : Machine} (hp : a.Padded k a') (h : a.Sound .standard) (h' : a'.Sound .standard)
  (hk : a.image.codeSize + k < memorySize)

include hp h h' hk

/-- **The machines step in lockstep** from statements that correspond. -/
theorem step (hm : m.Between a) (hm' : m'.Between a')
    (hmove : m.Relocated a.image.codeSize k m') :
    Lockstep a.image.codeSize k m.step m'.step := by
  obtain ⟨hruns, front, back, heq, hpc⟩ := hm
  obtain ⟨front', back', heq', hsize, hback⟩ := hp.split heq
  have hpc' : m'.pc = totalSize front' := by rw [hmove.pc_eq, hpc, hsize]
  rcases back with _ | ⟨s, back⟩
  · -- both are behind all statements
    obtain rfl := List.map_eq_nil_iff.1 hback
    rw [List.append_nil] at heq heq'
    rw [hruns.step_behind h (by rw [heq, hpc]),
      hm'.toRuns.step_behind h' (by rw [heq', hpc']), hmove.pc_eq]
    exact .error (t := .fault (.readPastMemory m.pc)) hmove
  · obtain ⟨s', rest, rfl, hs, -⟩ := List.map_eq_cons_iff.1 hback
    obtain ⟨op, c, hop, hc, hstep⟩ := hruns.step_at h heq hpc
    obtain ⟨op', c', hop', hc', hstep'⟩ := hm'.toRuns.step_at h' heq' hpc'
    -- the same statement is encoded by the same opcode, and is the same command
    rw [Statement.find?_of_instruction hs, hop] at hop'
    rw [Statement.command?_of_instruction hs, hc] at hc'
    cases hop'
    cases hc'
    rw [hstep, hstep']
    have hadvance : (m.advance s.size).Relocated a.image.codeSize k (m'.advance s'.size) :=
      { hmove with
        pc_eq := by
          show m'.pc + s'.size = m.pc + s.size + k
          rw [hmove.pc_eq, Statement.size_of_instruction hs]
          omega }
    refine .perform op (Command.inLockstep_perform (fun cond name hbranch => ?_) _ _ hadvance)
    rw [hbranch] at hc
    obtain ⟨o, ho, hname⟩ := List.mem_map.1 (Mnemonic.mem_of_command?_branch hc)
    exact hp.toNat_byte h hk (by simp [heq]) ho hname

/-- Any number of steps. -/
theorem iterate (hm : m.Between a) (hm' : m'.Between a')
    (hmove : m.Relocated a.image.codeSize k m') (n : Nat) :
    Lockstep a.image.codeSize k (m.iterate n) (m'.iterate n) := by
  induction n generalizing m m' with
  | zero => exact .ok hmove
  | succ n ih =>
    have hstep := hp.step h h' hk hm hm' hmove
    have hnext : ∀ {op m₁}, m.step = .ok op m₁ → m₁.Between a := hm.step_ok h
    have hnext' : ∀ {op m₁}, m'.step = .ok op m₁ → m₁.Between a' := hm'.step_ok h'
    rw [Machine.iterate_succ, Machine.iterate_succ]
    generalize m.step = r at hstep hnext
    generalize m'.step = r' at hstep hnext'
    cases hstep with
    | ok hmove => exact ih (hnext rfl) (hnext' rfl) hmove
    | error hmove => exact .error hmove
    | outside hf hle => exact .outside hf hle

end Assembly.Padded

/-- The end of a run as a result: a failure, or another way to end. -/
def Ending.asResult (m : Machine) : Ending → EStateM.Result Trap Machine Ending
  | failed t => .error t m
  | e => .ok e m

namespace Assembly.Padded

variable {k : Nat} {a a' : Assembly} {m m' : Machine} (hp : a.Padded k a')
  (h : a.Sound .standard) (h' : a'.Sound .standard) (hk : a.image.codeSize + k < memorySize)

include hp h h' hk in
/-- Runs that stop when the machine halts. -/
theorem run (hm : m.Between a) (hm' : m'.Between a') (hmove : m.Relocated a.image.codeSize k m')
    (limit : Nat) : Lockstep a.image.codeSize k
      ((m.run limit).1.asResult (m.run limit).2) ((m'.run limit).1.asResult (m'.run limit).2) := by
  induction limit generalizing m m' with
  | zero =>
    rw [Machine.run, Machine.run, hmove.halted_eq]
    cases m.halted <;> exact .ok hmove
  | succ limit ih =>
    rw [Machine.run, Machine.run, hmove.halted_eq]
    by_cases hh : m.halted = true
    · rw [if_pos hh, if_pos hh]
      exact .ok hmove
    · rw [if_neg hh, if_neg hh]
      have hstep := hp.step h h' hk hm hm' hmove
      have hnext : ∀ {op m₁}, m.step = .ok op m₁ → m₁.Between a := hm.step_ok h
      have hnext' : ∀ {op m₁}, m'.step = .ok op m₁ → m₁.Between a' := hm'.step_ok h'
      generalize m.step = r at hstep hnext
      generalize m'.step = r' at hstep hnext'
      cases hstep with
      | ok hmove => exact ih (hnext rfl) (hnext' rfl) hmove
      | error hmove => exact .error hmove
      | outside hf hle => exact .outside hf hle

end Assembly.Padded

/-! ### The NOPs -/

namespace Machine

variable {a : Assembly} {m : Machine} {front nops back : List Statement} {k : Nat}

/-- The machine with `k` `NOP`s executed. -/
def skip (k : Nat) (m : Machine) : Machine := { m.advance k with steps := m.steps + k }

theorem Runs.step_nop (hm : m.Runs a) (h : a.Sound .standard) {s : Statement}
    (heq : a.statements = front ++ s :: back) (hpc : m.pc = totalSize front)
    (hs : s.instruction = Script.nop) : ∃ op, m.step = .ok op (m.skip 1) := by
  obtain ⟨op, c, -, hc, hstep⟩ := hm.step_at h heq hpc
  cases (Statement.command?_of_nop hs).symm.trans hc
  rw [Statement.size_of_nop hs] at hstep
  exact ⟨op, hstep⟩

/-- **`NOP`s are executed one after the other**, in any run that is long enough. -/
theorem Runs.skip_nops (hm : m.Runs a) (h : a.Sound .standard)
    (heq : a.statements = front ++ nops ++ back) (hpc : m.pc = totalSize front)
    (hnops : nops.map Statement.instruction = List.replicate k Script.nop) :
    m.iterate k = .ok () (m.skip k) ∧
      (m.halted = false → ∀ n, m.run (k + n) = (m.skip k).run n) := by
  induction k generalizing m front nops with
  | zero => exact ⟨rfl, fun _ n => by rw [Nat.zero_add]; rfl⟩
  | succ k ih =>
    obtain ⟨s, rest, rfl, hs, hrest⟩ := List.map_eq_cons_iff.1 hnops
    rw [List.append_assoc] at heq
    obtain ⟨op, hstep⟩ := hm.step_nop h heq hpc hs
    have hskip : (m.skip 1).skip k = m.skip (k + 1) := by
      simp [skip, advance, Nat.add_assoc, Nat.add_comm 1 k]
    have hpc₁ : (m.skip 1).pc = totalSize (front ++ [s]) := by
      show m.pc + 1 = _
      rw [hpc, Statement.totalSize_append, Statement.totalSize_cons, Statement.size_of_nop hs]
      rfl
    have hm₁ : (m.skip 1).Runs a := ⟨hm.codeSize_eq, hm.code_eq⟩
    have heq₁ : a.statements = front ++ [s] ++ rest ++ back := by simp [heq]
    obtain ⟨hiterate, hrun⟩ := ih hm₁ heq₁ hpc₁ hrest
    rw [hskip] at hiterate hrun
    constructor
    · rw [iterate_succ, hstep]
      exact hiterate
    · intro hhalted n
      rw [Nat.add_right_comm, run, if_neg (by simp [hhalted]), hstep]
      exact hrun hhalted n

end Machine

namespace Assembly.Padded

variable {k : Nat} {a a' : Assembly}

/-- Behind the `NOP`s the machine is where the other one starts. -/
theorem start (hp : a.Padded k a') (h : a.Sound .standard) (h' : a'.Sound .standard)
    (input : List Char) : (Machine.ofImage a.image input).Relocated a.image.codeSize k
      ((Machine.ofImage a'.image input).skip k) where
  codeSize_eq := rfl
  codeSize_eq' := hp.codeSize
  pc_eq := rfl
  registers_eq := rfl
  difference_eq := rfl
  borrow_eq := rfl
  halted_eq := rfl
  steps_eq := rfl
  input_eq := rfl
  output_eq := rfl
  data_eq := by
    intro offset hlt
    have hlt' : a'.image.codeSize + offset.toNat < memorySize := by rw [hp.codeSize]; exact hlt
    have hlt₀ : a.image.codeSize + offset.toNat < memorySize := by omega
    -- data is zero at the start
    show a'.image.memory[a'.image.codeSize + offset.toNat]? =
      a.image.memory[a.image.codeSize + offset.toNat]?
    rw [Vector.getElem?_eq_getElem hlt', Vector.getElem?_eq_getElem hlt₀,
      h'.image.getElem_behind (Nat.le_add_right _ _), h.image.getElem_behind (Nat.le_add_right _ _)]

end Assembly.Padded

/-- **A program does the same behind `NOP`s.**  The text of a program with `k` `NOP`s in front is
assembled, as long as no more than 255 bytes are code; the `NOP`s are the first `k` steps, and the
machine is then in lockstep with that of the program alone, on the same input: after any number of
steps, and in any run until a halt, the two are as far, with the pc `k` bytes further on and all
else the same, or have failed alike, unless the first has failed for an offset at which the program
alone has data and it has none. -/
theorem assemble_nops {w k : Nat} {text : List Char} {a : Assembly}
    (h : assemble .standard w text = .ok a) (hk : a.image.codeSize + k ≤ 255) :
    ∃ a', assemble .standard w (Script.nops k ++ text) = .ok a' ∧ ∀ input,
      ∃ m', (Machine.ofImage a'.image input).iterate k = .ok () m' ∧
        (Machine.ofImage a.image input).Relocated a.image.codeSize k m' ∧
        ∀ n,
          Lockstep a.image.codeSize k ((Machine.ofImage a.image input).iterate n) (m'.iterate n) ∧
          (Machine.ofImage a'.image input).run (k + n) = m'.run n ∧
          Lockstep a.image.codeSize k
            (((Machine.ofImage a.image input).run n).1.asResult
              ((Machine.ofImage a.image input).run n).2)
            ((m'.run n).1.asResult (m'.run n).2) := by
  have hlt : a.image.codeSize + k < memorySize := Nat.lt_succ_of_le hk
  obtain ⟨a', h', hp⟩ := exists_padded h hlt.le
  have hsound := Assembly.sound_of_assemble h
  have hsound' := Assembly.sound_of_assemble h'
  refine ⟨a', h', fun input => ?_⟩
  obtain ⟨front, back, heq, hnops, -⟩ := hp.statements
  have hruns := Machine.runs_ofImage a' input
  have heq₀ : a'.statements = [] ++ front ++ back := heq
  obtain ⟨hiterate, hrun⟩ := hruns.skip_nops hsound' heq₀ rfl hnops
  have hbetween : (Machine.ofImage a.image input).Between a :=
    Machine.between_start (Machine.runs_ofImage a input) rfl
  have hbetween' : ((Machine.ofImage a'.image input).skip k).Between a' :=
    (Machine.between_start hruns rfl).iterate hsound' hiterate
  have hmove := hp.start hsound hsound' input
  exact ⟨_, hiterate, hmove, fun n => ⟨hp.iterate hsound hsound' hlt hbetween hbetween' hmove n,
    hrun rfl n, hp.run hsound hsound' hlt hbetween hbetween' hmove n⟩⟩

/-- A program that reads a number, branches over a statement and prints the number, with two `NOP`s
in front and without. -/
theorem assemble_nops_echo : ∃ a a',
    assemble .standard 4 "INPUT R0;B x;NOP;x:PRINT R0;HALT".toList = .ok a ∧
    a.image.codeSize + 2 ≤ 255 ∧
    assemble .standard 4 (Script.nops 2 ++ "INPUT R0;B x;NOP;x:PRINT R0;HALT".toList) = .ok a' ∧
    ((Machine.ofImage a.image ['7']).run 5).1 = .halted ∧
    ((Machine.ofImage a'.image ['7']).run (2 + 5)).1 = .halted ∧
    ((Machine.ofImage a'.image ['7']).run (2 + 5)).2.pc =
      ((Machine.ofImage a.image ['7']).run 5).2.pc + 2 ∧
    ((Machine.ofImage a'.image ['7']).run (2 + 5)).2.output =
      ((Machine.ofImage a.image ['7']).run 5).2.output := by
  obtain ⟨a, ha, hrun⟩ := exists_ok_of_any
    (x := assemble .standard 4 "INPUT R0;B x;NOP;x:PRINT R0;HALT".toList)
    (p := fun a => decide (a.image.codeSize + 2 ≤ 255) &&
      decide (((Machine.ofImage a.image ['7']).run 5).1 = .halted)) (by decide +kernel)
  have hrun' : (assemble .standard 4
      (Script.nops 2 ++ "INPUT R0;B x;NOP;x:PRINT R0;HALT".toList)).toOption.any (fun a' =>
        decide (((Machine.ofImage a'.image ['7']).run (2 + 5)).1 = .halted)) = true := by
    decide +kernel
  obtain ⟨hsize, hhalted⟩ := Bool.and_eq_true_iff.1 hrun
  have hsize := of_decide_eq_true hsize
  have hhalted := of_decide_eq_true hhalted
  obtain ⟨a', ha', hlockstep⟩ := assemble_nops ha hsize
  rw [ha'] at hrun'
  have hhalted' := of_decide_eq_true hrun'
  obtain ⟨m', -, -, hruns⟩ := hlockstep ['7']
  obtain ⟨-, hsame, hends⟩ := hruns 5
  rw [← hsame, hhalted, hhalted'] at hends
  cases hends with
  | ok hmove => exact ⟨a, a', ha, hsize, ha', hhalted, hhalted', hmove.pc_eq, hmove.output_eq⟩

end Asm256
