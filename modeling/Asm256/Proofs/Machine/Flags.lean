/-
The flags of a machine.

Only a comparison sets the flags, and a branch may look at them any number of
steps later.  They are those of the last comparison (`Machine.compared?`), or
those of the start if there was none, and they give the order of the numbers
that were compared:
* `Condition.holds_iff` — a branch condition is about the order of what was compared;
* `Command.flags_perform` — what a command does to the flags;
* `Machine.call_compared` — what a step does to them, whatever bytes are ahead;
* `Machine.compared_calls` — what any number of steps have done to them;
* `flags_of_last_comparison` — all of this, and the branches.
-/
import Asm256.Proofs.Machine.Data

namespace Asm256

/-! ### Flags and order -/

/-- The condition of a branch on two numbers: how the first is to compare with the second. -/
def Condition.Orders (a b : Nat) : Condition → Prop
  | always => True
  | equal => a = b
  | notEqual => a ≠ b
  | greater => b < a
  | less => a < b

instance (a b : Nat) : (c : Condition) → Decidable (c.Orders a b)
  | .always => inferInstanceAs (Decidable True)
  | .equal => inferInstanceAs (Decidable (a = b))
  | .notEqual => inferInstanceAs (Decidable (a ≠ b))
  | .greater => inferInstanceAs (Decidable (b < a))
  | .less => inferInstanceAs (Decidable (a < b))

theorem sub_eq_zero_iff_toNat {a b : UInt8} : a - b = 0 ↔ a.toNat = b.toNat := by
  rw [sub_eq_zero, UInt8.toNat_inj]

/-- **The flags of a comparison give the order** of the numbers compared. -/
theorem Condition.holds_iff (c : Condition) (a b : UInt8) :
    c.holds (a - b) (a < b) = true ↔ c.Orders a.toNat b.toNat := by
  have hzero := @sub_eq_zero_iff_toNat a b
  have hless := @UInt8.lt_iff_toNat_lt a b
  cases c with
  | always => simp [holds, Orders]
  | equal => simp [holds, Orders, hzero]
  | notEqual => simp [holds, Orders, hzero]
  | greater =>
    simp only [holds, Orders, Bool.and_eq_true, bne_iff_ne, Bool.not_eq_true', decide_eq_false_iff_not,
      ne_eq, hzero, hless]
    omega
  | less => simp [holds, Orders, hless]

/-- The difference of two bytes modulo 256. -/
theorem toNat_sub_eq_mod (a b : UInt8) : ((a - b).toNat : Int) = (a.toNat - b.toNat) % 256 := by
  have ha := a.toNat_lt
  have hb := b.toNat_lt
  rw [UInt8.toNat_sub]
  omega

/-! ### What commands do to the flags -/

/-- The value of an operand on a machine. -/
def Source.contents (m : Machine) : Source → UInt8
  | register r => m.registers.get r
  | literal v => v

/-- The numbers that a command compares. -/
def Command.compared? (m : Machine) : Command UInt8 → Option (UInt8 × UInt8)
  | compare left right => some (m.registers.get left, right.contents m)
  | _ => none

namespace Machine

variable {m m' m'' : Machine} {cs cs' : List (UInt8 × UInt8)}

/-- From `m` to `m'` the comparisons `cs` have been made, the last first: the flags are those of the
last, and those of `m` if there was none. -/
structure Compared (m m' : Machine) (cs : List (UInt8 × UInt8)) : Prop where
  difference_eq : m'.difference = cs.head?.elim m.difference fun c => c.1 - c.2
  borrow_eq : m'.borrow = cs.head?.elim m.borrow fun c => decide (c.1 < c.2)

theorem Compared.refl (m : Machine) : m.Compared m [] := ⟨rfl, rfl⟩

theorem Compared.trans (h : m.Compared m' cs) (h' : m'.Compared m'' cs') :
    m.Compared m'' (cs' ++ cs) := by
  cases cs' with
  | nil => exact ⟨h'.1.trans h.1, h'.2.trans h.2⟩
  | cons c cs' => exact ⟨h'.1, h'.2⟩

end Machine

namespace Command

open Exec

/-- Behind a success the flags are those of the comparisons, and behind a failure they are as before. -/
inductive LeavesFlags (m : Machine) (cs : List (UInt8 × UInt8)) :
    EStateM.Result Trap Machine Unit → Prop
  | ok {v : Unit} {m' : Machine} (h : m.Compared m' cs) : LeavesFlags m cs (.ok v m')
  | error {t : Trap} {m' : Machine} (h : m.Compared m' []) : LeavesFlags m cs (.error t m')

theorem leavesFlags_writeData {m m' : Machine} (h : m.Compared m' []) (offset : Nat) (v : UInt8) :
    LeavesFlags m [] ((writeData offset v).run m') := by
  rw [run_writeData]
  cases m'.dataAddress? offset with
  | none => exact .error h
  | some address => exact .ok ⟨h.1, h.2⟩

/-- **A comparison sets the flags, and no other command does**, nor does one that fails. -/
theorem flags_perform (c : Command UInt8) (m : Machine) :
    LeavesFlags m (c.compared? m).toList (c.perform.run m) := by
  have hsame : ∀ rs : Registers, m.Compared { m with registers := rs } [] := fun rs => ⟨rfl, rfl⟩
  have hinput : m.Compared { m with input := (LineStream.readByte m.input).2 } [] := ⟨rfl, rfl⟩
  cases c with
  | nop => exact .ok (.refl m)
  | halt => exact .ok ⟨rfl, rfl⟩
  | load target offset =>
    rw [perform, EStateM.run_bind, run_readData]
    cases m.dataAddress? offset.toNat with
    | none => exact .error (.refl m)
    | some address => exact .ok (hsame _)
  | store source offset =>
    rw [perform, EStateM.run_bind, run_register]
    exact leavesFlags_writeData (.refl m) _ _
  | compute f target left right => cases right <;> exact .ok (hsame _)
  | move target source | complement target source => cases source <;> exact .ok (hsame _)
  | compare left right => cases right <;> exact .ok ⟨rfl, rfl⟩
  | branch cond target =>
    rw [run_branch]
    split
    · exact .ok ⟨rfl, rfl⟩
    · exact .ok (.refl m)
  | printRegister source => exact .ok ⟨rfl, rfl⟩
  | printMemory offset =>
    rw [perform, EStateM.run_bind, run_readData]
    cases m.dataAddress? offset.toNat with
    | none => exact .error (.refl m)
    | some address => exact .ok ⟨rfl, rfl⟩
  | inputRegister target =>
    rw [perform, EStateM.run_bind, run_readInput]
    cases (LineStream.readByte m.input).1 with
    | ok v => exact .ok ⟨hinput.1, hinput.2⟩
    | error t => exact .error hinput
  | inputMemory offset =>
    rw [perform, EStateM.run_bind, run_readInput]
    cases (LineStream.readByte m.input).1 with
    | ok v => exact leavesFlags_writeData hinput _ v
    | error t => exact .error hinput

end Command

/-! ### What steps do to the flags -/

namespace Machine

variable {m m' : Machine} {op : Opcode} {args rest : List UInt8} {c : Command UInt8}
  {mode : Addressing}

/-- The numbers that the next step compares: `CMP` compares the contents of a register with those of
another one or with its operand, unless it fails. -/
def compared? (m : Machine) : Option (UInt8 × UInt8) :=
  match m.call.1, m.ahead with
  | .ok .cmpRegister, _ :: left :: right :: _ => do
      return (m.registers.get (← Asm256.register? left), m.registers.get (← Asm256.register? right))
  | .ok .cmpLiteral, _ :: left :: right :: _ => do
      return (m.registers.get (← Asm256.register? left), right)
  | _, _ => none

/-- The numbers that `n` steps compare, the last first. -/
def comparisons : (n : Nat) → Machine → List (UInt8 × UInt8)
  | 0, _ => []
  | n + 1, m => comparisons n m.call.2 ++ m.compared?.toList

theorem operation_eq_compare (h : op.operation = .compare mode) :
    op = .cmpRegister ∧ mode = .register ∨ op = .cmpLiteral ∧ mode = .literal := by
  cases op <;> cases h <;> simp

/-- A step that performs a command compares what the command does. -/
theorem compared?_of_ok (h : m.ahead = op.toByte :: (args ++ rest))
    (hc : op.operation.command? args = some c) (hok : m.call.1 = .ok op) :
    m.compared? = c.compared? m := by
  obtain ⟨hop, rfl⟩ := Operation.command?_eq_some_iff.1 hc
  unfold compared?
  rw [hok, h]
  cases c with
  | compare left right =>
    obtain ⟨rfl, hmode⟩ | ⟨rfl, hmode⟩ := operation_eq_compare hop
    · cases right with
      | register r => simp [Command.bytes, Command.compared?, Source.byte, Source.contents]
      | literal v => cases hmode
    · cases right with
      | register r => cases hmode
      | literal v => simp [Command.bytes, Command.compared?, Source.byte, Source.contents]
  | _ =>
    -- the opcode is neither of the two that compare
    split
    · next hcmp _ => cases hcmp; cases hop
    · next hcmp _ => cases hcmp; cases hop
    · rfl

theorem compared?_of_passed (h : m.ahead = [op.toByte]) : m.compared? = none := by
  unfold compared?
  rw [h]
  split <;> first | rfl | next heq => cases heq

theorem compared?_of_error {t : Trap} (h : m.call.1 = .error t) : m.compared? = none := by
  rw [compared?, h]

/-- **What a step does to the flags**, whatever bytes are ahead. -/
theorem call_compared (m : Machine) : m.Compared m.call.2 m.compared?.toList := by
  have hcalled := m.called
  generalize hr : m.call = r at hcalled
  cases hcalled with
  | stuck k =>
    rw [compared?_of_error (congrArg Prod.fst hr)]
    exact ⟨rfl, rfl⟩
  | passed h hc =>
    rw [compared?_of_passed h]
    exact ⟨rfl, rfl⟩
  | @failed c t m' k hrun =>
    have hflags := Command.flags_perform c (m.advance k)
    rw [hrun] at hflags
    rw [compared?_of_error (congrArg Prod.fst hr)]
    cases hflags with
    | error h' => exact ⟨h'.1, h'.2⟩
  | @performed op args rest c m' h hc hrun =>
    have hflags := Command.flags_perform c (m.advance (1 + args.length))
    rw [hrun] at hflags
    rw [compared?_of_ok h hc (congrArg Prod.fst hr)]
    cases hflags with
    | ok h' => exact ⟨h'.1, h'.2⟩

/-- **Any number of steps** make the comparisons that each of them makes. -/
theorem compared_calls (n : Nat) (m : Machine) : m.Compared (m.calls n).2 (m.comparisons n) := by
  induction n generalizing m with
  | zero => exact .refl m
  | succ n ih => exact m.call_compared.trans (ih m.call.2)

/-- A step that succeeds has performed a command, unless it was one of a branch. -/
theorem exists_command_of_ok (h : m.call.1 = .ok op) (hb : ∀ cond, op.operation ≠ .branch cond) :
    ∃ c rest, m.ahead = op.toByte :: (c.bytes ++ rest) ∧ op.operation = c.operation ∧
      op.operation.command? c.bytes = some c := by
  have hcalled := m.called
  generalize hr : m.call = r at hcalled h
  cases hcalled with
  | stuck k => cases h
  | failed k hrun => cases h
  | passed hahead hc =>
    cases h
    exact absurd hc (hb _)
  | @performed op' args rest c m' hahead hc hrun =>
    cases h
    obtain ⟨hop, rfl⟩ := Operation.command?_eq_some_iff.1 hc
    exact ⟨c, rest, hahead, hop, hc⟩

/-- What a comparison that succeeds compares. -/
theorem exists_of_call_compare (h : m.call.1 = .ok op) (hop : op.operation = .compare mode) :
    ∃ left right rest, m.ahead = op.toByte :: registerByte left :: right.byte :: rest ∧
      right.mode = mode ∧ m.compared? = some (m.registers.get left, Source.contents m right) := by
  obtain ⟨c, rest, hahead, hc, hcommand⟩ := exists_command_of_ok h fun cond heq => by
    cases hop.symm.trans heq
  rw [hop] at hc
  cases c with
  | compare left right =>
    cases hc
    exact ⟨left, right, rest, hahead, rfl, compared?_of_ok hahead hcommand h⟩
  | _ => cases hc

/-- A step of a branch with its operand goes to it, or on to the next instruction. -/
theorem step_branch {cond : Condition} {target : UInt8} (h : m.ahead = op.toByte :: target :: rest)
    (hop : op.operation = .branch cond) : m.step = .ok op { m.advance 2 with
      pc := if cond.holds m.difference m.borrow then target.toNat else m.pc + 2,
      steps := m.steps + 1 } := by
  have hc : op.operation.command? [target] = some (.branch cond target) := by
    rw [hop]
    rfl
  rw [step_eq h hc, perform, Command.run_branch]
  show EStateM.Result.ok op _ = _
  by_cases hcond : cond.holds m.difference m.borrow = true
  · rw [if_pos hcond, if_pos (by exact hcond)]
    rfl
  · rw [if_neg hcond, if_neg (by exact hcond)]
    rfl

/-- A machine is loaded with clear flags. -/
theorem flags_of_load {memory registers : List UInt8} {codeSize : Int} {input : List Char}
    (h : load memory registers codeSize input = .ok m) : m.difference = 0 ∧ m.borrow = false := by
  unfold load at h
  split at h
  · split at h
    · split at h
      · cases h
        exact ⟨rfl, rfl⟩
      · cases h
    · cases h
  · cases h

/-- The flags behind comparisons are those of the last numbers compared, where equal numbers stand
for clear flags. -/
theorem Compared.getD {cs : List (UInt8 × UInt8)} {a b v : UInt8} (h : m.Compared m' cs)
    (hclear : m.difference = 0 ∧ m.borrow = false) (hlast : cs.head?.getD (v, v) = (a, b)) :
    m'.difference = a - b ∧ m'.borrow = decide (a < b) := by
  rw [h.difference_eq, h.borrow_eq]
  cases hcs : cs.head? with
  | none =>
    rw [hcs] at hlast
    cases hlast
    simp [hclear]
  | some c =>
    rw [hcs] at hlast
    cases hlast
    exact ⟨rfl, rfl⟩

end Machine

/-- Of two numbers, just one order holds. -/
theorem Condition.existsUnique_holds (a b : UInt8) :
    ∃! cond, cond ∈ [Condition.equal, .greater, .less] ∧ cond.holds (a - b) (a < b) = true := by
  simp only [holds_iff]
  rcases lt_trichotomy a.toNat b.toNat with h | h | h
  · refine ⟨.less, ⟨by simp, h⟩, ?_⟩
    rintro cond ⟨hmem, hcond⟩
    fin_cases hmem <;> simp only [Orders] at hcond ⊢ <;> omega
  · refine ⟨.equal, ⟨by simp, h⟩, ?_⟩
    rintro cond ⟨hmem, hcond⟩
    fin_cases hmem <;> simp only [Orders] at hcond ⊢ <;> omega
  · refine ⟨.greater, ⟨by simp, h⟩, ?_⟩
    rintro cond ⟨hmem, hcond⟩
    fin_cases hmem <;> simp only [Orders] at hcond ⊢ <;> omega

/-- **The flags are those of the last comparison.**  On every machine that is loaded, and after any
number of steps, also behind steps that failed, the flags are the difference modulo 256 and the
borrow of the numbers that the last `CMP` compared, or clear if there was none: a `CMP` that succeeds
compares the contents of a register with its second operand, and any other step leaves the flags as
they are.  So a branch goes to its operand exactly if the numbers compared last are in its order,
where before the first comparison any two equal numbers will do, and just one of `BEQ`, `BGT` and
`BLT` would be taken. -/
theorem flags_of_last_comparison {memory registers : List UInt8} {codeSize : Int}
    {input : List Char} {m : Machine}
    (hload : Machine.load memory registers codeSize input = .ok m) (n : Nat) :
    let m' := (m.calls n).2
    let last := (m.comparisons n).head?
    (∀ a b, last = some (a, b) → (m'.difference.toNat : Int) = (a.toNat - b.toNat) % 256 ∧
      m'.borrow = decide (b.toNat > a.toNat)) ∧
    (last = none → m'.difference = 0 ∧ m'.borrow = false) ∧
    (m'.call.1 = .ok .cmpRegister → ∃ left right rest,
      m'.ahead = Opcode.cmpRegister.toByte :: registerByte left :: registerByte right :: rest ∧
      m'.compared? = some (m'.registers.get left, m'.registers.get right)) ∧
    (m'.call.1 = .ok .cmpLiteral → ∃ left right rest,
      m'.ahead = Opcode.cmpLiteral.toByte :: registerByte left :: right :: rest ∧
      m'.compared? = some (m'.registers.get left, right)) ∧
    (m'.call.1 ≠ .ok .cmpRegister → m'.call.1 ≠ .ok .cmpLiteral →
      m'.compared? = none ∧ m'.call.2.difference = m'.difference ∧ m'.call.2.borrow = m'.borrow) ∧
    ∀ v a b : UInt8, last.getD (v, v) = (a, b) →
      (∀ op cond target rest, op.operation = .branch cond → m'.ahead = op.toByte :: target :: rest →
        m'.step = .ok op { m'.advance 2 with
          pc := if cond.Orders a.toNat b.toNat then target.toNat else m'.pc + 2,
          steps := m'.steps + 1 }) ∧
      ∃! cond, cond ∈ [Condition.equal, .greater, .less] ∧
        cond.holds m'.difference m'.borrow = true := by
  intro m' last
  have hclear := Machine.flags_of_load hload
  have hflags : m.Compared m' (m.comparisons n) := Machine.compared_calls n m
  refine ⟨fun a b hlast => ?_, fun hlast => ?_, fun hcall => ?_, fun hcall => ?_, fun hr hl => ?_,
    fun v a b hlast => ?_⟩
  · have hgetD : (m.comparisons n).head?.getD (0, 0) = (a, b) := congrArg (·.getD (0, 0)) hlast
    obtain ⟨hd, hb⟩ := hflags.getD hclear hgetD
    rw [hd, hb]
    exact ⟨toNat_sub_eq_mod a b, rfl⟩
  · have hgetD : (m.comparisons n).head?.getD (0, 0) = (0, 0) := congrArg (·.getD (0, 0)) hlast
    exact hflags.getD hclear hgetD
  · obtain ⟨left, right, rest, hahead, hmode, hcompared⟩ := Machine.exists_of_call_compare hcall rfl
    cases right with
    | register r => exact ⟨left, r, rest, hahead, hcompared⟩
    | literal v => cases hmode
  · obtain ⟨left, right, rest, hahead, hmode, hcompared⟩ := Machine.exists_of_call_compare hcall rfl
    cases right with
    | register r => cases hmode
    | literal v => exact ⟨left, v, rest, hahead, hcompared⟩
  · have hnone : m'.compared? = none := by
      unfold Machine.compared?
      split
      · next h _ => exact absurd h hr
      · next h _ => exact absurd h hl
      · rfl
    have hcall := m'.call_compared
    rw [hnone] at hcall
    exact ⟨hnone, hcall.difference_eq, hcall.borrow_eq⟩
  · obtain ⟨hd, hb⟩ := hflags.getD hclear hlast
    constructor
    · intro op cond target rest hop hahead
      rw [Machine.step_branch hahead hop, hd, hb]
      by_cases hcond : cond.Orders a.toNat b.toNat
      · rw [if_pos hcond, if_pos ((cond.holds_iff a b).2 hcond)]
      · rw [if_neg hcond, if_neg (mt (cond.holds_iff a b).1 hcond)]
    · rw [hd, hb]
      exact Condition.existsUnique_holds a b

/-- 4 is compared with 9, then its register is set to 5: the branch is still one of 4 and 9. -/
theorem flags_of_last_comparison_later : ∃ m,
    Machine.load (0x09 :: 0 :: 1 :: 0x08 :: 0 :: 5 :: 0x0F :: 0 :: List.replicate 248 0)
      (4 :: 9 :: List.replicate 11 0) 8 [] = .ok m ∧
    m.comparisons 2 = [(4, 9)] ∧ (m.calls 2).2.registers.get 0 = 5 ∧
    ((m.calls 2).2.difference.toNat : Int) = (4 - 9) % 256 ∧ (m.calls 2).2.borrow = true ∧
    (m.calls 2).2.step = .ok .blt { (m.calls 2).2.advance 2 with
      pc := 0, steps := (m.calls 2).2.steps + 1 } := by
  obtain ⟨m, hload, hm⟩ := exists_ok_of_any (p := fun m : Machine =>
    decide (m.comparisons 2 = [(4, 9)]) && decide ((m.calls 2).2.registers.get 0 = 5) &&
      decide ((m.calls 2).2.ahead = [0x0F, 0])) (x := Machine.load
        (0x09 :: 0 :: 1 :: 0x08 :: 0 :: 5 :: 0x0F :: 0 :: List.replicate 248 0)
        (4 :: 9 :: List.replicate 11 0) 8 [])
    (by decide +kernel)
  simp only [Bool.and_eq_true, decide_eq_true_eq] at hm
  obtain ⟨⟨hcomparisons, hregister⟩, hahead⟩ := hm
  obtain ⟨hflags, -, -, -, -, hbranch⟩ := flags_of_last_comparison hload 2
  have hlast : (m.comparisons 2).head? = some (4, 9) := by
    rw [hcomparisons]
    rfl
  obtain ⟨hd, hb⟩ := hflags 4 9 hlast
  obtain ⟨hstep, -⟩ := hbranch 0 4 9 (congrArg (·.getD (0, 0)) hlast)
  exact ⟨m, hload, hcomparisons, hregister, hd, hb, hstep .blt .less 0 [] rfl hahead⟩

end Asm256
