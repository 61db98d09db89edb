/-
The entries of a listing under the machine.

A listing has the lengths of instructions from their signatures, and the machine
takes an instruction off the code operand by operand.  Both find the same
instructions, whatever the bytes of the code are:
* `Listing.Sweeps.exists_heads` — each entry stands at its address;
* `Machine.step_of_registers`, `Machine.step_of_rejected` — what a step comes to in front of an
  instruction;
* `Machine.step_of_cut` — what a step comes to in front of an instruction that is cut off;
* `listing_is_executed` — what a step comes to at the address of any entry.
-/
import Asm256.Proofs.Listing.Sweep
import Asm256.Proofs.Machine.Decoding

namespace Asm256

/-- The entry stands at the start of these bytes of code: an instruction with as many bytes as its
opcode takes operands, or a byte that is no opcode or has too few bytes behind it. -/
inductive Entry.Heads : Entry → List UInt8 → Prop
  | instruction {n : Nat} {op : Opcode} {values rest : List UInt8}
      (hlen : values.length = op.operation.kinds.length) :
      Heads (.instruction n op op.operation.mnemonic (op.operation.kinds.zip values))
        (op.toByte :: (values ++ rest))
  | data {n : Nat} {b : UInt8} {rest : List UInt8}
      (hbyte : ∀ op, Opcode.ofByte? b = some op → rest.length < op.operation.kinds.length) :
      Heads (.data n b) (b :: rest)

namespace Listing

variable {n : Nat} {bytes : List UInt8} {es : List Entry} {e : Entry}

/-- **Each entry stands at its address.** -/
theorem Sweeps.exists_heads (h : Sweeps .standard n bytes es) (he : e ∈ es) :
    ∃ k, e.address = n + k ∧ e.Heads (bytes.drop k) := by
  induction h with
  | nil => cases he
  | @instruction n op mn kinds values bytes es hop hlen _ ih =>
    obtain ⟨rfl, rfl⟩ := Prod.mk.inj (Option.some.inj
      ((SignatureTree.registration?_standard op).symm.trans hop))
    rcases List.mem_cons.1 he with rfl | he
    · exact ⟨0, rfl, .instruction hlen⟩
    · obtain ⟨k, haddress, hheads⟩ := ih he
      refine ⟨values.length + k + 1, by omega, ?_⟩
      rwa [List.drop_succ_cons, List.drop_length_add_append]
  | @data n byte bytes es hbyte _ ih =>
    rcases List.mem_cons.1 he with rfl | he
    · refine ⟨0, rfl, .data fun op hop => ?_⟩
      obtain ⟨mn, kinds, hr, hlt⟩ := hbyte op hop
      rw [SignatureTree.registration?_standard] at hr
      cases hr
      exact hlt
    · obtain ⟨k, haddress, hheads⟩ := ih he
      exact ⟨k + 1, by omega, hheads⟩

/-- An entry of the code of a machine is what is ahead at its address. -/
theorem heads_ahead {m : Machine} (hes : Sweeps .standard 0 m.code es) (he : e ∈ es)
    (hpc : m.pc = e.address) : e.Heads m.ahead := by
  obtain ⟨k, haddress, hheads⟩ := hes.exists_heads he
  rwa [Machine.ahead, hpc, haddress, Nat.zero_add]

end Listing

/-- The fault is one of the data or the input. -/
def Fault.OfData : Fault → Prop
  | .outOfBoundsRead _ | .outOfBoundsWrite _ | .inputExhausted => True
  | _ => False

/-- A failure that is neither of the code nor on a numeral that is too long is one of the data or
the input. -/
theorem Trap.exists_fault {t : Trap} (hcode : ¬ t.OfCode) (hlong : ∀ e, t ≠ .tooLong e) :
    ∃ f : Fault, t = .fault f ∧ f.OfData := by
  cases t with
  | fault f =>
    refine ⟨f, rfl, ?_⟩
    cases f with
    | readPastMemory | invalidOpcode | invalidRegister => exact absurd trivial hcode
    | _ => trivial
  | tooLong e => exact absurd rfl (hlong e)

theorem Command.eq_branch {α : Type} {c : Command α} {cond : Condition}
    (h : c.operation = .branch cond) : ∃ target, c = .branch cond target := by
  cases c with
  | branch cond' target =>
    cases h
    exact ⟨target, rfl⟩
  | _ => cases h

/-- Where the pc is behind a command: at the target of a branch that is taken, or as it was. -/
theorem Command.pc_of_run {c : Command UInt8} {m m' : Machine}
    (h : c.perform.run m = .ok () m') :
    (∃ cond target, c = .branch cond target ∧ cond.holds m.difference m.borrow = true ∧
        m'.pc = target.toNat) ∨
      (∀ cond target, c = .branch cond target → ¬ cond.holds m.difference m.borrow = true) ∧
        m'.pc = m.pc := by
  by_cases hb : ∃ cond target, c = .branch cond target
  · obtain ⟨cond, target, rfl⟩ := hb
    rw [run_branch] at h
    by_cases hholds : cond.holds m.difference m.borrow = true
    · rw [if_pos hholds] at h
      cases h
      exact .inl ⟨cond, target, rfl, hholds, rfl⟩
    · rw [if_neg hholds] at h
      cases h
      refine .inr ⟨fun cond' target' heq => ?_, rfl⟩
      cases heq
      exact hholds
  · rcases (perform_ok h).2.2 with hpc | ⟨cond, target, rfl, -⟩
    · exact .inr ⟨fun cond target heq => absurd ⟨cond, target, heq⟩ hb, hpc⟩
    · exact absurd ⟨cond, target, rfl⟩ hb

namespace Machine

variable {m : Machine} {op : Opcode} {b v : UInt8} {k : OperandKind} {values rest : List UInt8}

/-- **An instruction that names registers** is performed: it succeeds, or fails on its data or on
the input, and the pc is behind it unless it is a branch that is taken. -/
theorem step_of_registers (h : m.ahead = op.toByte :: (values ++ rest))
    (hlen : values.length = op.operation.kinds.length)
    (hfind : (op.operation.kinds.zip values).find? (fun o => o.1.Rejects o.2) = none)
    (hshort : LineStream.Short m.input) :
    ∃ m', (m.step = .ok op m' ∨ ∃ f : Fault, m.step = .error (.fault f) m' ∧ f.OfData) ∧
      ((∃ c target, op.operation = .branch c ∧ c.holds m.difference m.borrow = true ∧
          values = [target] ∧ m'.pc = target.toNat) ∨
        (∀ c, op.operation = .branch c → ¬ c.holds m.difference m.borrow = true) ∧
          m'.pc = m.pc + (1 + values.length)) := by
  have hobstacle := map_byte?_obstacle? hlen rest
  rw [hfind, Option.map_none, Option.map_eq_none_iff] at hobstacle
  obtain ⟨args, rest', c, happ, hargs, hc⟩ := Operation.exists_command_of_obstacle? hobstacle
  obtain ⟨rfl, rfl⟩ := List.append_inj happ (hlen.trans hargs.symm)
  obtain ⟨hop, hbytes⟩ := Operation.command?_eq_some_iff.1 hc
  have hstep := step_eq h hc
  have hadvance : LineStream.Short (m.advance (1 + values.length)).input := hshort
  have hp : Exec.Preserves _ _ c.perform :=
    Command.preserves_perform stable_short fun _ _ _ _ hm => hm
  cases hr : (m.advance (1 + values.length)).perform op c with
  | error t m' =>
    have hrun := run_of_perform_error hr
    obtain ⟨hplace, hcode⟩ := Command.perform_error hrun
    obtain ⟨f, rfl, hf⟩ := Trap.exists_fault hcode (hp.error hadvance hrun).2
    refine ⟨m', .inr ⟨f, hstep.trans hr, hf⟩, .inr ⟨fun cond hcond => ?_, hplace.pc_eq⟩⟩
    -- a branch does not fail
    obtain ⟨target, rfl⟩ := Command.eq_branch (hop.symm.trans hcond)
    rw [Command.run_branch] at hrun
    cases hrun
  | ok op' m' =>
    obtain ⟨rfl, m₁, hrun, rfl⟩ := run_of_perform_ok hr
    refine ⟨_, .inl (hstep.trans hr), ?_⟩
    rcases Command.pc_of_run hrun with ⟨cond, target, rfl, hholds, hpc⟩ | ⟨hnot, hpc⟩
    · exact .inl ⟨cond, target, hop, hholds, hbytes, hpc⟩
    · refine .inr ⟨fun cond hcond => ?_, hpc⟩
      obtain ⟨target, rfl⟩ := Command.eq_branch (hop.symm.trans hcond)
      exact hnot cond target rfl

/-- **An instruction that names no register** somewhere it has to fails for the first such
operand. -/
theorem step_of_rejected (h : m.ahead = op.toByte :: (values ++ rest))
    (hlen : values.length = op.operation.kinds.length)
    (hfind : (op.operation.kinds.zip values).find? (fun o => o.1.Rejects o.2) = some (k, v)) :
    ∃ m', m.step = .error (.fault (.invalidRegister v.toNat m.pc)) m' := by
  have hobstacle := map_byte?_obstacle? hlen rest
  rw [hfind, Option.map_some, Option.map_eq_some_iff] at hobstacle
  obtain ⟨o, ho, hbyte⟩ := hobstacle
  have htakes : op.operation.TakesOperands m := by
    intro c hc
    -- the operand of a branch is no register
    have hreject : k.Rejects v := by simpa using List.find?_some hfind
    have hmem := (List.of_mem_zip (List.mem_of_find?_eq_some hfind)).1
    rw [hc, Operation.kinds, List.mem_singleton] at hmem
    exact absurd (hmem.symm.trans hreject.1) (by decide)
  have hstep := step_of_obstacle h ho htakes
  rw [Obstacle.trap, hbyte] at hstep
  exact ⟨_, hstep⟩

/-- **An instruction that is cut off** fails at the end of the code or for an operand in front of
it, unless it is a branch that is not taken, which passes over the end of the code. -/
theorem step_of_cut (h : m.ahead = op.toByte :: rest)
    (hlt : rest.length < op.operation.kinds.length) :
    ((∃ c, op.operation = .branch c ∧ ¬ c.holds m.difference m.borrow = true) ∧
        m.step = .ok op { m.advance 2 with steps := m.steps + 1 }) ∨
      op.operation.TakesOperands m ∧ ∃ m',
        m.step = .error (.fault (.readPastMemory m.codeSize)) m' ∨
        ∃ v : UInt8, registerCount ≤ v.toNat ∧
          m.step = .error (.fault (.invalidRegister v.toNat m.pc)) m' := by
  by_cases htakes : op.operation.TakesOperands m
  · obtain ⟨o, ho, hcase⟩ := exists_obstacle hlt
    have hstep := step_of_obstacle h ho htakes
    refine .inr ⟨htakes, m.advance (1 + o.taken), ?_⟩
    rcases hcase with rfl | ⟨b, hbyte, hb⟩
    · have hend : m.pc + 1 + rest.length = m.codeSize := by
        have hlen := congrArg List.length h
        have hpc := pc_lt_of_ahead h
        rw [ahead, List.length_drop, length_code, List.length_cons] at hlen
        omega
      rw [Obstacle.trap, hend] at hstep
      exact .inl hstep
    · rw [Obstacle.trap, hbyte] at hstep
      exact .inr ⟨b, hb, hstep⟩
  · obtain ⟨c, hc, hnot⟩ := Operation.exists_branch_of_not_takesOperands htakes
    exact .inl ⟨⟨c, hc, hnot⟩, step_of_not_taken h hc hnot⟩

end Machine

/-- **The machine executes what the listing lists.**  Every code has a listing, and a machine steps
from the address of each entry, with whatever is in its registers and flags and with lines of input
that are not too long.  An instruction is performed or fails on its data or on the input, and the pc
is behind it, or at its label if it is a branch that is taken; if an operand should be a register
and is none, it fails for the first that is not.  A byte that is no opcode fails as such.  And an
instruction that the end of the code cuts off fails for that end or for an operand in front of it,
or it is a branch that is not taken, and passes over its operand. -/
theorem listing_is_executed {memory : Memory} {codeSize : Nat} (hc : codeSize ≤ memorySize) :
    ∃ es, Listing.entries .standard memory.toList codeSize = .ok es ∧ ∀ e ∈ es, ∀ m : Machine,
      m.memory = memory → m.codeSize = codeSize → m.pc = e.address → LineStream.Short m.input →
      match e with
      | .instruction address op _ os =>
          match os.find? fun o => o.1.Rejects o.2 with
          | some o => ∃ m', m.step = .error (.fault (.invalidRegister o.2.toNat address)) m'
          | none => ∃ m',
              (m.step = .ok op m' ∨ ∃ f : Fault, m.step = .error (.fault f) m' ∧ f.OfData) ∧
              ((∃ c target, op.operation = .branch c ∧ c.holds m.difference m.borrow = true ∧
                  os = [(.label, target)] ∧ m'.pc = target.toNat) ∨
                (∀ c, op.operation = .branch c → ¬ c.holds m.difference m.borrow = true) ∧
                  m'.pc = address + e.size)
      | .data address b =>
          match Opcode.ofByte? b with
          | none => ∃ m', m.step = .error (.fault (.invalidOpcode b.toNat address)) m'
          | some op =>
              ((∃ c, op.operation = .branch c ∧ ¬ c.holds m.difference m.borrow = true) ∧
                m.step = .ok op { m.advance 2 with steps := m.steps + 1 }) ∨
              op.operation.TakesOperands m ∧ ∃ m',
                m.step = .error (.fault (.readPastMemory codeSize)) m' ∨
                ∃ v : UInt8, registerCount ≤ v.toNat ∧
                  m.step = .error (.fault (.invalidRegister v.toNat address)) m' := by
  obtain ⟨es, hsweeps⟩ : ∃ es, Listing.Sweeps .standard 0 (memory.toList.take codeSize) es :=
    Listing.exists_sweeps (fun op => by rw [SignatureTree.registration?_standard]; rfl) 0 _
  refine ⟨es, hsweeps.entries_eq (by simpa using hc), fun e he m hmemory hsize hpc hshort => ?_⟩
  subst hmemory hsize
  have hheads := Listing.heads_ahead hsweeps he hpc
  generalize hahead : m.ahead = bytes at hheads
  cases hheads with
  | @instruction address op values rest hlen =>
    obtain rfl : m.pc = address := hpc
    dsimp only
    split
    · next o hfind => exact Machine.step_of_rejected hahead hlen hfind
    · next hfind =>
      obtain ⟨m', hstep, hcase⟩ := Machine.step_of_registers hahead hlen hfind hshort
      refine ⟨m', hstep, hcase.imp ?_ ?_⟩
      · rintro ⟨c, target, hop, hholds, rfl, htarget⟩
        exact ⟨c, target, hop, hholds, by rw [hop]; rfl, htarget⟩
      · rintro ⟨hnot, hbehind⟩
        exact ⟨hnot, by rw [hbehind, Listing.size_instruction _ _ _ hlen, hlen]⟩
  | @data address b rest hbyte =>
    obtain rfl : m.pc = address := hpc
    dsimp only
    split
    · next hnone => exact ⟨_, Machine.step_of_no_opcode hahead hnone⟩
    · next op hop =>
      rw [← Opcode.toByte_of_ofByte? hop] at hahead
      exact Machine.step_of_cut hahead (hbyte op hop)

/-- A load, and behind it a branch that is cut off. -/
theorem listing_is_executed_cut : ∃ (memory : Memory) (h : 4 ≤ memorySize),
    Listing.entries .standard memory.toList 4 =
      .ok [.instruction 0 .ldr .ldr [(.register, 1), (.memory, 0)], .data 3 0x0b] ∧
    (∃ m' : Machine, (Machine.step { memory, codeSize := 4, codeSize_le := h } = .ok .ldr m' ∨
      ∃ f : Fault, Machine.step { memory, codeSize := 4, codeSize_le := h } = .error (.fault f) m' ∧
        f.OfData) ∧ m'.pc = 3) ∧
    ∃ m' : Machine, Machine.step { memory, codeSize := 4, codeSize_le := h, pc := 3 } =
        .error (.fault (.readPastMemory (4 : Nat))) m' ∨
      ∃ v : UInt8, registerCount ≤ v.toNat ∧
        Machine.step { memory, codeSize := 4, codeSize_le := h, pc := 3 } =
          .error (.fault (.invalidRegister v.toNat (3 : Nat))) m' := by
  let memory : Memory := ((Vector.replicate memorySize 0).set 0 0x01).set 1 1 |>.set 3 0x0b
  have h4 : 4 ≤ memorySize := by decide
  have hbranch := SignatureTree.registration?_standard .b
  have htake : memory.toList.take 4 = [0x01, 1, 0, 0x0b] := by decide +kernel
  have hsweeps : Listing.Sweeps .standard 0 [0x01, 1, 0, 0x0b]
      [.instruction 0 .ldr .ldr [(.register, 1), (.memory, 0)], .data 3 0x0b] := by
    refine @Listing.Sweeps.instruction _ _ .ldr _ _ [1, 0] _ _
      (SignatureTree.registration?_standard .ldr) rfl (.data (fun op hop => ?_) .nil)
    cases hop
    exact ⟨_, _, hbranch, by decide⟩
  have hentries := (htake ▸ hsweeps).entries_eq (by simpa using h4)
  obtain ⟨es, hes, hall⟩ := @listing_is_executed memory 4 h4
  obtain rfl := Except.ok.inj (hes.symm.trans hentries)
  refine ⟨memory, h4, hes, ?_, ?_⟩
  · obtain ⟨m', hstep, hpc⟩ := hall _ (.head _) { memory, codeSize := 4, codeSize_le := h4 }
      rfl rfl rfl LineStream.short_nil
    refine ⟨m', hstep, ?_⟩
    rcases hpc with ⟨c, target, hop, -⟩ | ⟨-, hpc⟩
    · cases hop
    · exact hpc
  · obtain ⟨⟨c, hc, hnot⟩, -⟩ | ⟨-, hstep⟩ := hall _ (.tail _ (.head _))
      { memory, codeSize := 4, codeSize_le := h4, pc := 3 } rfl rfl rfl LineStream.short_nil
    · cases hc
      exact absurd rfl hnot
    · exact hstep

/-- A step does not fail at every instruction that is cut off: where the code is a `BNE` without its
address, and the flags are those of equal operands, it passes over the end of the code. -/
theorem listing_is_executed_untaken : ∃ (memory : Memory) (h : 1 ≤ memorySize),
    memory.toList = 0x0d :: List.replicate 255 0 ∧
    Listing.entries .standard memory.toList 1 = .ok [.data 0 0x0d] ∧
    Opcode.ofByte? 0x0d = some .bne ∧
    (∃ m', Machine.step { memory, codeSize := 1, codeSize_le := h } = .ok .bne m' ∧ m'.pc = 2) ∧
    ¬ ∃ t m', Machine.step { memory, codeSize := 1, codeSize_le := h } = .error t m' := by
  let memory : Memory := (Vector.replicate memorySize 0).set 0 0x0d
  have h1 : 1 ≤ memorySize := by decide
  have hbytes : memory.toList = 0x0d :: List.replicate 255 0 := by decide +kernel
  have hsweeps : Listing.Sweeps .standard 0 [0x0d] [.data 0 0x0d] := by
    refine .data (fun op hop => ?_) .nil
    cases hop
    exact ⟨_, _, SignatureTree.registration?_standard .bne, by decide⟩
  have htake : memory.toList.take 1 = [0x0d] := by rw [hbytes]; rfl
  have hahead : Machine.ahead { memory, codeSize := 1, codeSize_le := h1 } = [0x0d] := htake
  have hnot : ¬ Condition.holds 0 false .notEqual = true := by decide
  have hstep : Machine.step { memory, codeSize := 1, codeSize_le := h1 } = .ok .bne _ :=
    Machine.step_of_not_taken hahead rfl hnot
  refine ⟨memory, h1, hbytes, (htake ▸ hsweeps).entries_eq (by simp [memorySize]), by decide,
    ⟨_, hstep, rfl⟩, ?_⟩
  rintro ⟨t, m', herror⟩
  cases hstep.symm.trans herror

end Asm256
