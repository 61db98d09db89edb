/-
Where branches lead.

A label operand is written as the address of its label modulo 256.  That is the
address itself, except for a label at the end of a memory that is full of code:
its address 256 is written as 0, so a branch to it leads back to the first
statement, and not behind the last one (`label_operand_leads`).
-/
import Asm256.Proofs.Program.Boundary

namespace Asm256

open Statement (totalSize codeOf)

variable {tree : SignatureTree} {a : Assembly} {s : Statement} {front back : List Statement}
  {name : String}

theorem Statement.size_pos (s : Statement) : 0 < s.size := by
  unfold size
  omega

theorem Statement.eq_nil_of_totalSize {ss : List Statement} (h : totalSize ss = 0) : ss = [] := by
  cases ss with
  | nil => rfl
  | cons s ss =>
    have hpos := s.size_pos
    rw [totalSize_cons] at h
    omega

namespace Assembly.Sound

variable (h : a.Sound tree)

include h

/-- The byte of an operand stands in memory behind the opcode and the operands in front of it. -/
theorem operand_byte (hs : a.statements = front ++ s :: back) {os₁ os₂ : List (Spelled Operand)}
    {o : Spelled Operand} (ho : s.operands = os₁ ++ o :: os₂) :
    a.image.memory.toList[totalSize front + 1 + os₁.length]? = some (o.value.byte a.labels) := by
  have hfront : ∀ s ∈ front, s.Encodable tree a.labels := fun s hmem =>
    h.encodable s (by rw [hs]; exact List.mem_append_left _ hmem)
  obtain ⟨op, hop⟩ := Option.isSome_iff_exists.1 (h.encodable s (by simp [hs])).1
  have hcode : s.code tree a.labels = op.toByte :: s.operandBytes a.labels :=
    Statement.Encodable.code_eq hop
  have hlength := Statement.length_codeOf hfront
  rw [h.image.memory, hs, Statement.codeOf_append, Statement.codeOf_cons, hcode,
    Statement.operandBytes, ho, List.append_assoc, Nat.add_assoc,
    List.getElem?_append_right (by omega), hlength, Nat.add_sub_cancel_left, Nat.add_comm 1]
  simp

/-- A label is at the end of the code when all statements are in front of it. -/
theorem address_eq_codeSize_iff {l : Label} (hl : l ∈ a.labels) :
    l.address = a.image.codeSize ↔ ∀ s ∈ a.statements, s.mnemonic.pos.Before l.pos := by
  obtain ⟨front, back, heq, haddress, hfront, hback⟩ := h.label l hl
  rw [haddress, h.codeSize_eq, heq, Statement.totalSize_append]
  constructor
  · intro hend
    obtain rfl : back = [] := Statement.eq_nil_of_totalSize (by omega)
    rw [List.append_nil]
    exact hfront
  · intro hall
    cases back with
    | nil => simp
    | cons s back =>
      -- a statement cannot be in front of the label and behind it
      have hbefore := hall s (by simp)
      exact absurd hbefore (hback s (by simp)).asymm

end Assembly.Sound

/-- A branch that is taken goes to the byte of its label. -/
theorem Machine.Runs.step_branch {m : Machine} (hm : m.Runs a) (h : a.Sound .standard)
    (hs : a.statements = front ++ s :: back) (hpc : m.pc = totalSize front) {cond : Condition}
    (hc : s.command? = some (.branch cond name)) (hcond : cond.holds m.difference m.borrow = true) :
    ∃ op, m.step = .ok op { m with pc := (a.labels.byte name).toNat, steps := m.steps + 1 } := by
  obtain ⟨op, c, -, hc', hstep⟩ := hm.step_at h hs hpc
  rw [hc] at hc'
  cases hc'
  refine ⟨op, ?_⟩
  have hrun : (Command.branch cond (a.labels.byte name)).perform.run (m.advance s.size) =
      .ok () { m with pc := (a.labels.byte name).toNat } := by
    rw [Command.run_branch, if_pos (by exact hcond)]
    rfl
  rw [hstep]
  show Machine.perform _ op (.branch cond (a.labels.byte name)) = _
  rw [Machine.perform, hrun]

/-- **Where a label operand leads.**  Its byte is the address of its label exactly when that is not
256, which it is for a label behind all statements of a program of 256 bytes; the byte is 0 then.  A
branch to the label goes to that byte.  Behind a label at the end of the code, the machine finds no
instruction, but when the memory is full of code it is back at the first statement. -/
theorem label_operand_leads {w : Nat} {text : List Char} (h : assemble .standard w text = .ok a)
    (hs : a.statements = front ++ s :: back) {os₁ os₂ : List (Spelled Operand)}
    {o : Spelled Operand} (ho : s.operands = os₁ ++ o :: os₂) (hname : o.value = .label name) :
    ∃ l b, a.labels.find? name = some l ∧
      a.image.memory.toList[totalSize front + 1 + os₁.length]? = some b ∧
      ((b.toNat : Int) = l.address ↔ l.address ≠ 256) ∧ (l.address = 256 → b = 0) ∧
      (l.address = 256 ↔ a.image.codeSize = 256 ∧ ∀ s ∈ a.statements, s.mnemonic.pos.Before l.pos) ∧
      ∀ m : Machine, m.Runs a → m.pc = totalSize front → ∀ cond,
        s.command? = some (.branch cond name) → cond.holds m.difference m.borrow = true →
        ∃ op m', m.step = .ok op m' ∧ m' = { m with pc := b.toNat, steps := m.steps + 1 } ∧
          ((m'.pc : Int) = l.address ↔ l.address ≠ 256) ∧
          (l.address = a.image.codeSize →
            (a.image.codeSize < 256 →
              m'.step = .error (.fault (.readPastMemory a.image.codeSize)) m') ∧
            (a.image.codeSize = 256 →
              m'.pc = 0 ∧ ∀ pc m'', m'.step ≠ .error (.fault (.readPastMemory pc)) m'')) := by
  have hsound := Assembly.sound_of_assemble h
  have hmem : s ∈ a.statements := by simp [hs]
  obtain ⟨l, front', back', hl, heq, haddress, -⟩ := hsound.address hmem (by simp [ho]) hname
  have hbyte := LabelTable.toNat_byte hl haddress
  have hlmem : l ∈ a.labels := List.mem_of_find?_eq_some hl
  have hle : totalSize a.statements ≤ 256 := hsound.totalSize_le
  have hsize := hsound.codeSize_eq
  have hend := hsound.address_eq_codeSize_iff hlmem
  have hsplit : totalSize a.statements = totalSize front' + totalSize back' := by
    rw [heq, Statement.totalSize_append]
  have hexact : ((a.labels.byte name).toNat : Int) = l.address ↔ l.address ≠ 256 := by
    omega
  refine ⟨l, a.labels.byte name, hl, ?_, hexact, ?_, ?_, ?_⟩
  · rw [hsound.operand_byte hs ho, hname]
    rfl
  · intro h256
    apply UInt8.toNat_inj.1
    rw [hbyte, UInt8.toNat_zero]
    omega
  · rw [← hend]
    omega
  -- a machine at the branch: only its pc and its count of steps are different behind it
  intro m hm hpc cond hc hcond
  obtain ⟨op, hstep⟩ := hm.step_branch hsound hs hpc hc hcond
  set m' : Machine := { m with pc := (a.labels.byte name).toNat, steps := m.steps + 1 } with hm'
  have hruns : m'.Runs a := ⟨hm.codeSize_eq, hm.code_eq⟩
  have hpc' : m'.pc = (a.labels.byte name).toNat := rfl
  refine ⟨op, m', hstep, rfl, hexact, fun hlast => ⟨fun hlt => ?_, fun hfull => ?_⟩⟩
  · have hbehind : m'.pc = totalSize a.statements := by omega
    rw [hruns.step_behind hsound hbehind, hbehind, hsize]
  · have hzero : m'.pc = 0 := by omega
    refine ⟨hzero, fun pc m'' hfail => ?_⟩
    -- only a machine behind all statements finds no instruction
    rcases (Machine.between_start hruns hzero).step_error hsound hfail with ⟨hbehind, -⟩ | hdata
    · omega
    · exact hdata trivial

/-- A memory full of branches to its end: the first one leads back to itself. -/
theorem label_operand_leads_back : ∃ a l op m,
    assemble .standard 4 ((List.replicate 128 ['B', ' ', 'e', ';']).flatten ++ ['e', ':']) = .ok a ∧
    a.labels.find? "e" = some l ∧ l.address = 256 ∧ a.image.memory.toList[1]? = some 0 ∧
    (Machine.ofImage a.image []).step = .ok op m ∧ m.pc = 0 := by
  have hrun : ((assemble .standard 4
      ((List.replicate 128 ['B', ' ', 'e', ';']).flatten ++ ['e', ':'])).toOption.any fun a =>
        decide (a.image.codeSize = 256) &&
        decide (a.statements.head?.map (fun s => (s.mnemonic.value, s.operands.map Spelled.value)) =
          some (.b, [.label "e"])) &&
        decide ((a.labels.find? "e").map Label.address = some 256)) = true := by
    decide +kernel
  obtain ⟨a, ha, hrun⟩ := exists_ok_of_any hrun
  simp only [Bool.and_eq_true, decide_eq_true_eq] at hrun
  obtain ⟨⟨hsize, hfirst⟩, haddress⟩ := hrun
  obtain ⟨s, hs, hfirst⟩ := Option.map_eq_some_iff.1 hfirst
  obtain ⟨hm, hoperands⟩ := Prod.mk.inj hfirst
  obtain ⟨ss, hss⟩ := List.head?_eq_some_iff.1 hs
  obtain ⟨o, ho, hname⟩ := List.map_eq_singleton_iff.1 hoperands
  obtain ⟨l, b, hl, hb, -, hzero, -, hbranch⟩ :=
    @label_operand_leads a s [] ss "e" 4 _ ha hss [] [] o ho hname
  rw [hl, Option.map_some, Option.some_inj] at haddress
  have hc : s.command? = some (.branch .always "e") := by
    rw [Statement.command?, hm, hoperands]
    rfl
  obtain ⟨op, m', hstep, -, -, hend⟩ := hbranch _ (Machine.runs_ofImage a []) rfl .always hc rfl
  obtain ⟨hpc, -⟩ := (hend (by rw [haddress, hsize]; rfl)).2 hsize
  rw [hzero haddress] at hb
  exact ⟨a, l, op, m', ha, hl, haddress, hb, hstep, hpc⟩

end Asm256
