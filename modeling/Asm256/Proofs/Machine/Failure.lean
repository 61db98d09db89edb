/-
Steps that fail.

An instruction stores its result last, so one that fails has taken bytes off the code
(`Machine.fetched`), and lines off the input if it is an `INPUT`, and that is all:
* `behind_takenBytes` — at an obstacle an instruction has taken the bytes up to there;
* `Command.spares_of_perform_error` — a command that fails changes nothing but the input;
* `Machine.failed` — a step that fails has done no more than that, and its fault points at the byte
  where it failed.

The main result is `failed_step_moves_pc`.
-/
import Asm256.Proofs.Machine.Manual

namespace Asm256

/-! ### The bytes that an instruction takes -/

/-- The bytes that operands of these kinds take: one each, up to the end of the code, or up to a byte
that names no register where one is asked for. -/
def takenBytes : List OperandKind → List UInt8 → List UInt8
  | k :: ks, b :: bs => b :: if k.Rejects b then [] else takenBytes ks bs
  | _, _ => []

/-- The bytes that the instruction at the pc takes off the code: its opcode, and its operands if that
is one. -/
def Machine.fetched (m : Machine) : List UInt8 :=
  match m.ahead with
  | [] => []
  | b :: bs => b :: (Opcode.ofByte? b).elim [] fun op => takenBytes op.operation.kinds bs

section

variable {k : OperandKind} {ks : List OperandKind} {b : UInt8} {bs : List UInt8} {o : Obstacle}

theorem takenBytes_prefix (ks : List OperandKind) (bs : List UInt8) :
    takenBytes ks bs <+: bs := by
  induction ks generalizing bs with
  | nil => exact List.nil_prefix
  | cons k ks ih =>
    cases bs with
    | nil => exact List.nil_prefix
    | cons b bs =>
      rw [takenBytes, List.prefix_cons_inj]
      split
      · exact List.nil_prefix
      · exact ih bs

theorem length_takenBytes_le (ks : List OperandKind) (bs : List UInt8) :
    (takenBytes ks bs).length ≤ ks.length := by
  induction ks generalizing bs with
  | nil => exact Nat.zero_le _
  | cons k ks ih =>
    cases bs with
    | nil => exact Nat.zero_le _
    | cons b bs =>
      rw [takenBytes, List.length_cons, List.length_cons]
      refine Nat.succ_le_succ ?_
      split
      · exact Nat.zero_le _
      · exact ih bs

/-- What an obstacle is, by the bytes that have been taken: these are all there are, or the last of
them names no register. -/
structure Obstacle.Behind (o : Obstacle) (taken bs : List UInt8) : Prop where
  length_eq : taken.length = o.taken
  eq_of_none : o.byte? = none → taken = bs
  getLast?_eq : ∀ b, o.byte? = some b → taken.getLast? = some b ∧ registerCount ≤ b.toNat

/-- **At an obstacle the bytes up to there have been taken.** -/
theorem behind_takenBytes (h : obstacle? ks bs = some o) : o.Behind (takenBytes ks bs) bs := by
  induction ks generalizing bs o with
  | nil => cases h
  | cons k ks ih =>
    cases bs with
    | nil =>
      cases h
      exact ⟨rfl, fun _ => rfl, fun b hb => by cases hb⟩
    | cons b bs =>
      rw [obstacle?] at h
      rw [takenBytes]
      split at h
      · next hb =>
        cases h
        rw [if_pos hb]
        refine ⟨rfl, (fun hnone => by cases hnone), fun b' hb' => ?_⟩
        cases hb'
        exact ⟨rfl, hb.2⟩
      · next hb =>
        obtain ⟨o, ho, rfl⟩ := Option.map_eq_some_iff.1 h
        have hrest := ih ho
        rw [if_neg hb]
        refine ⟨congrArg (· + 1) hrest.length_eq, fun hnone => ?_, fun b' hb' => ?_⟩
        · rw [hrest.eq_of_none hnone]
        · obtain ⟨hlast, hle⟩ := hrest.getLast?_eq b' hb'
          rw [List.getLast?_cons, hlast]
          exact ⟨rfl, hle⟩

/-- Bytes without an obstacle are all taken. -/
theorem takenBytes_append {args rest : List UInt8} (hlen : args.length = ks.length)
    (h : obstacle? ks (args ++ rest) = none) : takenBytes ks (args ++ rest) = args := by
  induction ks generalizing args with
  | nil =>
    obtain rfl := List.eq_nil_of_length_eq_zero hlen
    rfl
  | cons k ks ih =>
    obtain ⟨b, args, rfl⟩ := List.exists_cons_of_length_eq_add_one hlen
    obtain ⟨b', bs, heq, hb, hnone⟩ := obstacle?_cons_eq_none.1 h
    obtain ⟨rfl, rfl⟩ := List.cons_eq_cons.1 heq
    rw [List.cons_append, takenBytes, if_neg hb, ih (Nat.succ_inj.1 hlen) hnone]

end

/-! ### Commands that fail -/

theorem not_rejects_registerByte (k : OperandKind) (r : Register) :
    ¬ k.Rejects (registerByte r) := by
  rintro ⟨-, hle⟩
  have hr := register?_registerByte r
  rw [register?, dif_neg (Nat.not_lt.2 hle)] at hr
  cases hr

theorem not_rejects_of_ne {k : OperandKind} (h : k ≠ .register) (b : UInt8) : ¬ k.Rejects b :=
  fun hb => h hb.1

theorem Source.not_rejects (source : Source) : ¬ source.mode.kind.Rejects source.byte := by
  cases source with
  | register r => exact not_rejects_registerByte _ r
  | literal v => exact not_rejects_of_ne (fun h => by cases h) v

namespace Command

theorem length_bytes (c : Command UInt8) : c.bytes.length = c.operation.kinds.length := by
  cases c <;> rfl

/-- There is no obstacle in the bytes of a command. -/
theorem obstacle?_bytes (c : Command UInt8) (rest : List UInt8) :
    obstacle? c.operation.kinds (c.bytes ++ rest) = none := by
  have hm : ∀ b, ¬ OperandKind.memory.Rejects b := not_rejects_of_ne (by decide)
  have hl : ∀ b, ¬ OperandKind.label.Rejects b := not_rejects_of_ne (by decide)
  cases c <;>
    simp [operation, bytes, Operation.kinds, obstacle?, not_rejects_registerByte,
      Source.not_rejects, hm, hl]

variable {c : Command UInt8} {m m' : Machine} {t : Trap}

/-- Of the machine `m` only the input has changed, and that only by an instruction `INPUT`. -/
structure Spares (c : Command UInt8) (m m' : Machine) : Prop where
  eq : m' = { m with input := m'.input }
  suffix : m'.input <:+ m.input
  input_eq : c.operation.mnemonic ≠ .input → m'.input = m.input

theorem Spares.refl (c : Command UInt8) (m : Machine) : c.Spares m m :=
  ⟨rfl, List.suffix_refl _, fun _ => rfl⟩

theorem spares_readByte (h : c.operation.mnemonic = .input) :
    c.Spares m { m with input := (LineStream.readByte m.input).2 } :=
  ⟨rfl, LineStream.readByte_suffix _, fun hne => absurd h hne⟩

/-- **A command that fails spares the machine**: it fails on its data or its input, before it stores
anything. -/
theorem spares_of_perform_error (h : c.perform.run m = .error t m') : c.Spares m m' := by
  cases c with
  | load target offset =>
    rw [run_load] at h
    cases hv : m.data? offset with
    | none =>
      rw [hv] at h
      cases h
      exact .refl _ _
    | some v =>
      rw [hv] at h
      cases h
  | store source offset =>
    rw [run_store] at h
    split at h
    · cases h
    · cases h
      exact .refl _ _
  | printMemory offset =>
    rw [run_printMemory] at h
    cases hv : m.data? offset with
    | none =>
      rw [hv] at h
      cases h
      exact .refl _ _
    | some v =>
      rw [hv] at h
      cases h
  | inputRegister target =>
    have hspares : (inputRegister target).Spares m _ := spares_readByte rfl
    rw [run_inputRegister] at h
    split at h
    · cases h
    · next hread =>
      cases h
      rwa [hread] at hspares
  | inputMemory offset =>
    have hspares : (inputMemory offset).Spares m _ := spares_readByte rfl
    -- the line is taken off the input before the byte is stored
    rw [run_inputMemory] at h
    split at h
    · next hread =>
      rw [hread] at hspares
      split at h
      · cases h
      · cases h
        exact hspares
    · next hread =>
      cases h
      rwa [hread] at hspares
  | branch cond target =>
    rw [run_branch] at h
    cases h
  | compute f target left right =>
    rw [run_compute] at h
    cases h
  | move target source =>
    rw [run_move] at h
    cases h
  | complement target source =>
    rw [run_complement] at h
    cases h
  | compare left right =>
    rw [run_compare] at h
    cases h
  | nop | halt | printRegister => cases h

end Command

/-! ### Steps that fail -/

theorem Operation.length_kinds_le (op : Operation) : op.kinds.length ≤ 3 := by
  cases op <;> simp [kinds]

namespace Machine

variable {m m' : Machine} {t : Trap}

theorem fetched_of_nil (h : m.ahead = []) : m.fetched = [] := by
  rw [fetched, h]

theorem fetched_of_no_opcode {b : UInt8} {bs : List UInt8} (h : m.ahead = b :: bs)
    (hop : Opcode.ofByte? b = none) : m.fetched = [b] := by
  rw [fetched, h]
  show b :: (Opcode.ofByte? b).elim _ _ = _
  rw [hop, Option.elim_none]

theorem fetched_of_opcode {op : Opcode} {bs : List UInt8} (h : m.ahead = op.toByte :: bs) :
    m.fetched = op.toByte :: takenBytes op.operation.kinds bs := by
  rw [fetched, h]
  show _ :: (Opcode.ofByte? _).elim _ _ = _
  rw [Opcode.ofByte?_toByte, Option.elim_some]

theorem fetched_prefix (m : Machine) : m.fetched <+: m.ahead := by
  cases h : m.ahead with
  | nil => rw [fetched_of_nil h]
  | cons b bs =>
    cases hb : Opcode.ofByte? b with
    | none =>
      rw [fetched_of_no_opcode h hb]
      exact (List.prefix_cons_inj b).2 List.nil_prefix
    | some op =>
      rw [← Opcode.toByte_of_ofByte? hb] at h ⊢
      rw [fetched_of_opcode h, List.prefix_cons_inj]
      exact takenBytes_prefix _ _

/-- An instruction has at most four bytes. -/
theorem length_fetched_le (m : Machine) : m.fetched.length ≤ 4 := by
  rw [fetched]
  split
  · exact Nat.zero_le _
  · rw [List.length_cons]
    refine Nat.succ_le_succ ?_
    cases Opcode.ofByte? _ with
    | none => exact Nat.zero_le _
    | some op => exact (length_takenBytes_le _ _).trans op.operation.length_kinds_le

/-- Behind its operands an instruction has taken just these. -/
theorem fetched_of_command {op : Opcode} {args rest : List UInt8} {c : Command UInt8}
    (h : m.ahead = op.toByte :: (args ++ rest)) (hc : op.operation.command? args = some c) :
    m.fetched = op.toByte :: args := by
  obtain ⟨hop, rfl⟩ := Operation.command?_eq_some_iff.1 hc
  rw [fetched_of_opcode h, hop, takenBytes_append c.length_bytes (c.obstacle?_bytes rest)]

end Machine

/-- What a fault says of the code is so: a byte that is no opcode, or names no register, is the last
one that has been taken off the code, and the instruction is the one that the step started with; and
where the code ends, all of it has been taken and the pc stands there. -/
def Fault.PointsAt (m m' : Machine) : Fault → Prop
  | .invalidOpcode byte pc =>
      ∃ b, m.fetched = [b] ∧ Opcode.ofByte? b = none ∧ byte = b.toNat ∧ pc = m.pc
  | .invalidRegister index pc =>
      ∃ b, m.fetched.getLast? = some b ∧ registerCount ≤ b.toNat ∧ index = b.toNat ∧ pc = m.pc
  | .readPastMemory pc => m.fetched = m.ahead ∧ pc = m'.pc
  | .outOfBoundsRead _ | .outOfBoundsWrite _ | .inputExhausted => True

/-- A step that fails has these effects: those of the bytes that it has taken off the code, and those
of its command. -/
structure Machine.Fails (m m' : Machine) (t : Trap) : Prop where
  eq : m' = { m with pc := m.pc + m.fetched.length, input := m'.input }
  suffix : m'.input <:+ m.input
  input_eq : (∀ op : Opcode, m.ahead.head? = some op.toByte →
      op.operation.mnemonic ≠ .input) →
    m'.input = m.input
  pointsAt : ∀ f, t = .fault f → f.PointsAt m m'

namespace Machine

variable {m m' : Machine} {t : Trap}

/-- A step that fails in front of a command has taken bytes off the code, and that is all. -/
theorem Fails.of_advance (hp : ∀ f, t = .fault f → f.PointsAt m (m.advance m.fetched.length)) :
    m.Fails (m.advance m.fetched.length) t :=
  ⟨rfl, List.suffix_refl _, fun _ => rfl, hp⟩

/-- **What a step that fails has done**, whatever bytes are ahead. -/
theorem failed (h : m.step = .error t m') : m.Fails m' t := by
  have hstep := m.stepped
  -- one case for each way of a step, of which one does not fail
  generalize hr : m.step = r at hstep
  cases hstep with
  | behind hnil =>
    cases h.symm.trans hr
    have hfetched := fetched_of_nil hnil
    have hfails : m.Fails (m.advance m.fetched.length) (.fault (.readPastMemory m.pc)) :=
      .of_advance fun f hf => by
        cases hf
        rw [hfetched]
        exact ⟨hfetched.trans hnil.symm, rfl⟩
    rwa [hfetched] at hfails
  | @noOpcode b bs hahead hop =>
    cases h.symm.trans hr
    have hfetched := fetched_of_no_opcode hahead hop
    have hfails : m.Fails (m.advance m.fetched.length) (.fault (.invalidOpcode b.toNat m.pc)) :=
      .of_advance fun f hf => by
        cases hf
        exact ⟨b, hfetched, hop, rfl, rfl⟩
    rwa [hfetched] at hfails
  | @stuck op bs o hahead ho htakes =>
    cases h.symm.trans hr
    have hfetched := fetched_of_opcode hahead
    have hbehind := behind_takenBytes ho
    have hlength : m.fetched.length = 1 + o.taken := by
      rw [hfetched, List.length_cons, hbehind.length_eq, Nat.add_comm]
    rw [← hlength]
    refine .of_advance fun f hf => ?_
    cases hb : o.byte? with
    | none =>
      rw [Obstacle.trap, hb] at hf
      cases hf
      refine ⟨?_, ?_⟩
      · rw [hfetched, hahead, hbehind.eq_of_none hb]
      · rw [hlength, Nat.add_assoc]
        rfl
    | some b =>
      rw [Obstacle.trap, hb] at hf
      cases hf
      obtain ⟨hlast, hle⟩ := hbehind.getLast?_eq b hb
      refine ⟨b, ?_, hle, rfl, rfl⟩
      rw [hfetched, List.getLast?_cons, hlast, Option.getD_some]
  | passed hahead hc hnot => cases h.symm.trans hr
  | @performed op args rest c hahead hc =>
    have hrun := run_of_perform_error (hr.symm.trans h)
    have hspares := Command.spares_of_perform_error hrun
    obtain ⟨-, hcode⟩ := Command.perform_error hrun
    have hfetched := fetched_of_command hahead hc
    obtain ⟨hop, rfl⟩ := Operation.command?_eq_some_iff.1 hc
    refine ⟨?_, hspares.suffix, fun hinput => hspares.input_eq ?_, fun f hf => ?_⟩
    · rw [hfetched, List.length_cons, Nat.add_comm _ 1]
      exact hspares.eq
    · rw [← hop]
      exact hinput op (by rw [hahead, List.head?_cons])
    · subst hf
      cases f with
      | invalidOpcode | invalidRegister | readPastMemory => exact absurd trivial hcode
      | outOfBoundsRead | outOfBoundsWrite | inputExhausted => trivial

end Machine

/-- **A step that fails leaves the machine intact.**  Whatever is in the memory and the registers, it
has moved the pc behind the bytes that it has taken off the code, four at most, and everything else
is as it was, but for the input if the instruction is `INPUT`.  A byte that is no opcode, or names no
register, is the last byte taken, and reported with the address where the instruction starts; a byte
that is missing is reported with the pc that is left, when all bytes ahead have been taken. -/
theorem failed_step_moves_pc {m m' : Machine} {t : Trap} (h : m.step = .error t m') :
    m' = { m with pc := m.pc + m.fetched.length, input := m'.input } ∧
    m.fetched <+: m.ahead ∧ m.fetched.length ≤ 4 ∧
    m'.input <:+ m.input ∧
    (m'.input ≠ m.input → ∃ (op : Opcode) (rest : List UInt8),
      m.ahead = op.toByte :: rest ∧ (op = .inputRegister ∨ op = .inputMemory)) ∧
    (∀ byte pc, t = .fault (.invalidOpcode byte pc) →
      ∃ b, m.fetched = [b] ∧ Opcode.ofByte? b = none ∧ byte = b.toNat ∧ pc = m.pc) ∧
    (∀ index pc, t = .fault (.invalidRegister index pc) → ∃ b,
      m.fetched.getLast? = some b ∧ registerCount ≤ b.toNat ∧ index = b.toNat ∧ pc = m.pc) ∧
    (∀ pc, t = .fault (.readPastMemory pc) → m.fetched = m.ahead ∧ pc = m'.pc) := by
  have hfails := Machine.failed h
  refine ⟨hfails.eq, m.fetched_prefix, m.length_fetched_le, hfails.suffix, fun hne => ?_,
    fun _ _ => hfails.pointsAt _, fun _ _ => hfails.pointsAt _, fun _ => hfails.pointsAt _⟩
  by_contra hno
  refine hne (hfails.input_eq fun op hop hinput => hno ?_)
  obtain ⟨rest, hahead⟩ := List.head?_eq_some_iff.1 hop
  refine ⟨op, rest, hahead, ?_⟩
  cases op <;> first | exact .inl rfl | exact .inr rfl | cases hinput

/-- An `INPUT` that has no byte of data to store at has taken a line off the input, and nothing else
has changed. -/
theorem failed_step_moves_pc_input : ∃ m, Machine.load (0x1f :: 10 :: List.replicate 254 0)
      (List.replicate 13 7) 250 "x\n7\n8".toList = .ok m ∧
    m.step = .error (.fault (.outOfBoundsWrite 10)) { m with pc := 2, input := ['8'] } := by
  obtain ⟨m, hload, hm⟩ := exists_ok_of_any (p := fun m : Machine =>
    decide (m.call.1 = .error (.fault (.outOfBoundsWrite 10))) && decide (m.call.2.input = ['8']) &&
      decide (m.pc + m.fetched.length = 2)) (x := Machine.load
        (0x1f :: 10 :: List.replicate 254 0) (List.replicate 13 7) 250 "x\n7\n8".toList)
    (by decide +kernel)
  simp only [Bool.and_eq_true, decide_eq_true_eq] at hm
  obtain ⟨⟨htrap, hinput⟩, hpc⟩ := hm
  cases hs : m.step with
  | ok op m' =>
    rw [Machine.call_of_ok hs] at htrap
    cases htrap
  | error t m' =>
    rw [Machine.call_of_error hs] at htrap hinput
    cases htrap
    obtain ⟨heq, -⟩ := failed_step_moves_pc hs
    rw [hpc, hinput] at heq
    exact ⟨m, hload, hs.trans (congrArg _ heq)⟩

end Asm256
