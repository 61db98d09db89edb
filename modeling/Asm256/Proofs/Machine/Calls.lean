/-
Any number of steps on any image.

A machine can be stepped on after a step that failed, and after it has halted
(`Machine.calls`).  Whatever is in its memory and its registers, its pc never
gets further than a branch can lead, or than a branch at the end of the code
that is not taken (`Machine.Bounded`), and a step fails only by a fault that
says what is the case (`Fault.Justified`):
* `Machine.Bounded.step_ok`, `Machine.Bounded.step_error` — one step;
* `Machine.Bounded.calls` — any number of them;
* `load_calls_safe` — on every machine that is loaded.
-/
import Asm256.Proofs.Machine.Cycle

namespace Asm256

/-- The fault is right about a machine with this size of code: the code ends there, there is no such
byte of data, the byte is no opcode, or there is no such register. -/
def Fault.Justified (codeSize : Nat) : Fault → Prop
  | .readPastMemory pc => codeSize ≤ pc
  | .outOfBoundsRead offset | .outOfBoundsWrite offset => memorySize ≤ codeSize + offset
  | .invalidOpcode byte _ => ∀ op : Opcode, (op.toByte.toNat : Int) ≠ byte
  | .invalidRegister index _ => registerCount ≤ index
  | .inputExhausted => True

/-- The failure is a fault, and right about a machine with this size of code. -/
def Trap.Justified (codeSize : Nat) (t : Trap) : Prop := ∃ f, t = .fault f ∧ f.Justified codeSize

namespace Machine

/-- What a step comes to, and the machine behind it. -/
def call (m : Machine) : Except Trap Opcode × Machine :=
  match m.step with
  | .ok op m' => (.ok op, m')
  | .error t m' => (.error t, m')

/-- What `n` steps come to, whether they succeed or fail, and the machine behind them. -/
def calls : (n : Nat) → Machine → List (Except Trap Opcode) × Machine
  | 0, m => ([], m)
  | n + 1, m => (m.call.1 :: (calls n m.call.2).1, (calls n m.call.2).2)

/-- The pc is at most `bound`, and `steps` instructions have been executed; the lines of the input
are short. -/
structure Bounded (codeSize bound steps : Nat) (m : Machine) : Prop where
  codeSize_eq : m.codeSize = codeSize
  pc_le : m.pc ≤ bound
  steps_eq : m.steps = steps
  short : LineStream.Short m.input

variable {codeSize bound bound' steps : Nat} {m m' : Machine} {t : Trap}

/-- The furthest that the pc can get: to byte 255 by a branch, or behind the address of a branch
that is not taken and stands at the end of the code. -/
def maxPc (codeSize : Nat) : Nat := max 255 (codeSize + 1)

theorem Bounded.setPc (h : Bounded codeSize bound steps m) {pc : Nat} (hpc : pc ≤ bound') :
    Bounded codeSize bound' steps { m with pc := pc } := ⟨h.1, hpc, h.3, h.4⟩

theorem le_add_of_dataAddress? {offset : Nat} (h : m.dataAddress? offset = none) :
    (memorySize : Int) ≤ m.codeSize + offset := by
  unfold dataAddress? at h
  split at h
  · cases h
  · omega

/-- Only taking bytes off the code and branches move the pc, and failures on data are justified. -/
theorem stable_bounded : Exec.Stable (Bounded codeSize bound steps) (Trap.Justified codeSize) where
  registers _ h := ⟨h.1, h.2, h.3, h.4⟩
  flags _ _ h := ⟨h.1, h.2, h.3, h.4⟩
  halted h := ⟨h.1, h.2, h.3, h.4⟩
  output _ h := ⟨h.1, h.2, h.3, h.4⟩
  data _ _ _ h := ⟨h.1, h.2, h.3, h.4⟩
  input h := ⟨h.1, h.2, h.3, h.4.of_suffix (LineStream.readByte_suffix _)⟩
  outOfBoundsRead _ h hnone := ⟨_, rfl, h.codeSize_eq ▸ le_add_of_dataAddress? hnone⟩
  outOfBoundsWrite _ h hnone := ⟨_, rfl, h.codeSize_eq ▸ le_add_of_dataAddress? hnone⟩
  unreadable h hr := by
    rcases LineStream.readByte_error hr with rfl | ⟨e, rfl⟩
    · exact ⟨_, rfl, trivial⟩
    · exact absurd hr (h.short.readByte e)

/-- While an instruction takes its operands, the pc is in the code or at its end. -/
theorem cycle_bounded : Exec.Cycle (Bounded codeSize (maxPc codeSize) steps)
    (Bounded codeSize codeSize steps) (Trap.Justified codeSize) where
  toStable := stable_bounded
  advance h hlt := h.setPc (h.codeSize_eq ▸ hlt)
  readPastMemory h hle := ⟨_, rfl, h.codeSize_eq ▸ Int.ofNat_le.2 hle⟩
  invalidRegister _ hle := ⟨_, rfl, Int.ofNat_le.2 hle⟩
  enter h hlt := h.setPc (h.codeSize_eq ▸ hlt)
  leave h := h.setPc (h.pc_le.trans ((Nat.le_succ _).trans (le_max_right _ _)))
  taken target h := h.setPc ((Nat.le_of_lt_succ target.toNat_lt).trans (le_max_left _ _))
  skipped h := h.setPc ((Nat.succ_le_succ h.pc_le).trans (le_max_right _ _))
  behind h hle := ⟨_, rfl, h.codeSize_eq ▸ Int.ofNat_le.2 hle⟩
  invalidOpcode {b} _ hop := by
    refine ⟨_, rfl, fun op heq => ?_⟩
    obtain rfl : op.toByte = b := UInt8.toNat_inj.1 (Int.ofNat_inj.1 heq)
    rw [Opcode.ofByte?_toByte] at hop
    cases hop

/-- A step that succeeds counts, and leaves the pc in its bounds. -/
theorem Bounded.step_ok (h : Bounded codeSize (maxPc codeSize) steps m) {op : Opcode}
    (hs : m.step = .ok op m') : Bounded codeSize (maxPc codeSize) (steps + 1) m' := by
  obtain ⟨m₁, h₁, rfl⟩ := cycle_bounded.step_ok h hs
  exact ⟨h₁.1, h₁.2, congrArg (· + 1) h₁.3, h₁.4⟩

/-- A step that fails does not count, and leaves the pc in its bounds; it has a reason to fail. -/
theorem Bounded.step_error (h : Bounded codeSize (maxPc codeSize) steps m)
    (hs : m.step = .error t m') :
    Bounded codeSize (maxPc codeSize) steps m' ∧ t.Justified codeSize :=
  cycle_bounded.step_error h hs

/-- **Any number of steps** leave the pc in its bounds and fail only with reason; those that succeed
are counted. -/
theorem Bounded.calls (h : Bounded codeSize (maxPc codeSize) steps m) (n : Nat) :
    Bounded codeSize (maxPc codeSize) (steps + (m.calls n).1.countP Except.isOk) (m.calls n).2 ∧
      ∀ t, .error t ∈ (m.calls n).1 → t.Justified codeSize := by
  induction n generalizing m steps with
  | zero => exact ⟨h, by simp [Machine.calls]⟩
  | succ n ih =>
    rw [Machine.calls, call]
    cases hs : m.step with
    | ok op m' =>
      obtain ⟨hbounded, herrors⟩ := ih (h.step_ok hs)
      refine ⟨?_, by simpa using herrors⟩
      rw [List.countP_cons_of_pos rfl, Nat.add_comm _ 1, ← Nat.add_assoc]
      exact hbounded
    | error t m' =>
      obtain ⟨h', ht⟩ := h.step_error hs
      obtain ⟨hbounded, herrors⟩ := ih h'
      refine ⟨?_, fun t' hmem => ?_⟩
      · rw [List.countP_cons_of_neg (by simp [Except.isOk, Except.toBool])]
        exact hbounded
      · rcases List.mem_cons.1 hmem with heq | hmem
        · cases heq
          exact ht
        · exact herrors t' hmem

theorem length_calls (n : Nat) (m : Machine) : (m.calls n).1.length = n := by
  induction n generalizing m with
  | zero => rfl
  | succ n ih => rw [calls, List.length_cons, ih]

/-- A memory and registers of the right sizes are loaded with the pc at the start. -/
theorem exists_load {memory registers : List UInt8} {input : List Char}
    (hm : memory.length = memorySize) (hr : registers.length = registerCount)
    (hc : codeSize ≤ memorySize) (hi : LineStream.Short input) :
    ∃ m, load memory registers codeSize input = .ok m ∧
      Bounded codeSize (maxPc codeSize) 0 m := by
  have hsize : (0 : Int) ≤ codeSize ∧ (codeSize : Int) ≤ memorySize := by omega
  rw [load, dif_pos hm, dif_pos hr, dif_pos hsize]
  exact ⟨_, rfl, rfl, Nat.zero_le _, rfl, hi⟩

end Machine

/-- **The machine is safe on every image.**  Whatever bytes are in its memory and its registers, it
can be loaded with any size of code; and after any number of steps, also behind steps that failed
and behind a halt, its pc is at most `maxPc`, registers, memory and flags are bytes, and the steps
counted are those that succeeded.  Addresses and registers are in range by their types, and a step
that has none to take fails: always by a fault, which is right about the machine. -/
theorem load_calls_safe {memory registers : List UInt8} {codeSize : Nat} {input : List Char}
    (hm : memory.length = memorySize) (hr : registers.length = registerCount)
    (hc : codeSize ≤ memorySize) (hi : LineStream.Short input) :
    ∃ m, Machine.load memory registers codeSize input = .ok m ∧ ∀ n,
      let outcomes := (m.calls n).1
      let m' := (m.calls n).2
      outcomes.length = n ∧
      m'.codeSize = codeSize ∧ m'.pc ≤ max 255 (codeSize + 1) ∧
      (∀ r : Register, (m'.registers.get r).toNat ≤ 255) ∧
      (∀ address : Fin memorySize, (m'.memory.get address).toNat ≤ 255) ∧
      m'.difference.toNat ≤ 255 ∧
      m'.steps = outcomes.countP Except.isOk ∧
      ∀ t, .error t ∈ outcomes → ∃ f : Fault, t = .fault f ∧ f.Justified codeSize := by
  have hbyte : ∀ b : UInt8, b.toNat ≤ 255 := fun b => Nat.le_of_lt_succ b.toNat_lt
  obtain ⟨m, hload, hstart⟩ := Machine.exists_load hm hr hc hi
  refine ⟨m, hload, fun n => ?_⟩
  obtain ⟨hbounded, herrors⟩ := hstart.calls n
  refine ⟨Machine.length_calls n m, hbounded.codeSize_eq, hbounded.pc_le, fun r => hbyte _,
    fun address => hbyte _, hbyte _, ?_, herrors⟩
  rw [hbounded.steps_eq, Nat.zero_add]

/-- A branch to the last byte of a memory full of code, and a branch there that is not taken: the pc
gets as far as it can, and the machine fails from then on. -/
theorem load_calls_safe_not_taken : ∃ m,
    Machine.load (0x0b :: 255 :: (List.replicate 253 0 ++ [0x0d])) (List.replicate 13 7) 256 [] =
      .ok m ∧
    (m.calls 4).2.pc = 257 ∧ (m.calls 4).2.steps = 2 ∧ (m.calls 4).1.length = 4 ∧
    ∀ t, .error t ∈ (m.calls 4).1 → ∃ f : Fault, t = .fault f ∧ f.Justified 256 := by
  have hshort : LineStream.Short [] := fun line hl _ => by
    rw [List.infix_nil.1 hl]
    exact Nat.zero_le _
  have hm : (0x0b :: 255 :: (List.replicate 253 (0 : UInt8) ++ [0x0d])).length = memorySize := by
    decide +kernel
  have hr : (List.replicate 13 (7 : UInt8)).length = registerCount := by decide
  obtain ⟨m, hload, hsafe⟩ := load_calls_safe hm hr (Nat.le_refl 256) hshort
  obtain ⟨hlength, -, -, -, -, -, hsteps, herrors⟩ := hsafe 4
  have hrun : (Machine.load (0x0b :: 255 :: (List.replicate 253 0 ++ [0x0d]))
      (List.replicate 13 7) 256 []).toOption.any (fun m => decide ((m.calls 4).2.pc = 257) &&
        decide ((m.calls 4).1.countP Except.isOk = 2)) = true := by
    decide +kernel
  have hload' := hload
  rw [Nat.cast_ofNat] at hload'
  rw [hload'] at hrun
  simp only [Except.toOption, Option.any_some, Bool.and_eq_true, decide_eq_true_eq] at hrun
  exact ⟨m, hload, hrun.1, hsteps.trans hrun.2, hlength, herrors⟩

end Asm256
