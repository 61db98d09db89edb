/-
The data of a machine.

Code and data share the memory, and only the size of the code keeps them apart.
All the same a program can store bytes behind the code only, one in a step
(`Machine.store?`), and the data is a store: a byte of it is the last one
stored at its offset, or the one it was at first.
* `Command.stores_perform` — what a command stores;
* `Machine.call_stored` — what a step stores, whatever bytes are ahead;
* `Machine.stored_calls` — what any number of steps have stored;
* `data_is_a_store` — all of this, and the instructions that deliver data.
-/
import Asm256.Proofs.Machine.Calls
import Asm256.Proofs.Machine.Decoding

namespace Asm256

namespace Machine

variable {m m' m'' : Machine} {offset v : UInt8} {ws ws' : List (UInt8 × UInt8)}

/-- The data byte at an offset, if it lies in memory. -/
def data? (m : Machine) (offset : UInt8) : Option UInt8 := m.memory[m.codeSize + offset.toNat]?

@[simp] theorem data?_advance (m : Machine) (k : Nat) (offset : UInt8) :
    (m.advance k).data? offset = m.data? offset := rfl

/-- The offset and the byte that the next step stores: `STR` stores what is in its register, and
`INPUT` the number that it reads, unless they fail. -/
def store? (m : Machine) : Option (UInt8 × UInt8) :=
  match m.call.1, m.ahead with
  | .ok .str, _ :: source :: offset :: _ =>
      (Asm256.register? source).map fun r => (offset, m.registers.get r)
  | .ok .inputMemory, _ :: offset :: _ =>
      (LineStream.readByte m.input).1.toOption.map fun v => (offset, v)
  | _, _ => none

/-- The offsets and bytes that `n` steps store, the last first. -/
def stores : (n : Nat) → Machine → List (UInt8 × UInt8)
  | 0, _ => []
  | n + 1, m => stores n m.call.2 ++ m.store?.toList

/-! ### Stores -/

/-- The memory after stores, the last of them first. -/
def storeAll (m : Machine) (ws : List (UInt8 × UInt8)) : Memory :=
  ws.foldr (fun w memory => memory.setIfInBounds (m.codeSize + w.1.toNat) w.2) m.memory

/-- From `m` to `m'` the stores `ws` have been made, the last first, and the memory is otherwise the
same. -/
structure Stored (m m' : Machine) (ws : List (UInt8 × UInt8)) : Prop where
  codeSize_eq : m'.codeSize = m.codeSize
  memory_eq : m'.memory = m.storeAll ws

theorem Stored.trans (h : m.Stored m' ws) (h' : m'.Stored m'' ws') : m.Stored m'' (ws' ++ ws) := by
  refine ⟨h'.codeSize_eq.trans h.codeSize_eq, ?_⟩
  rw [h'.memory_eq, storeAll, storeAll, List.foldr_append, h.codeSize_eq, h.memory_eq]
  rfl

theorem Stored.of_advance {k : Nat} (h : (m.advance k).Stored m' ws) : m.Stored m' ws :=
  ⟨h.codeSize_eq, h.memory_eq⟩

/-- Stores leave the code as it is. -/
theorem Stored.code_eq (h : m.Stored m' ws) : m'.code = m.code := by
  rw [code, code, h.memory_eq, h.codeSize_eq]
  clear h
  induction ws with
  | nil => rfl
  | cons w ws ih =>
    show ((m.storeAll ws).setIfInBounds (m.codeSize + w.1.toNat) w.2).toList.take m.codeSize = _
    rw [← ih, Vector.toList_setIfInBounds, List.take_set_of_le (Nat.le_add_right _ _)]

/-- **Data is the last byte stored at its offset**, or the byte it was. -/
theorem Stored.data?_eq (h : m.Stored m' ws) (offset : UInt8) :
    m'.data? offset = (m.data? offset).map fun v => (ws.lookup offset).getD v := by
  rw [data?, data?, h.memory_eq, h.codeSize_eq]
  clear h
  induction ws with
  | nil => simp [storeAll]
  | cons w ws ih =>
    obtain ⟨written, v⟩ := w
    show ((m.storeAll ws).setIfInBounds (m.codeSize + written.toNat) v)[_]? = _
    rw [Vector.getElem?_setIfInBounds]
    by_cases heq : offset = written
    · subst heq
      by_cases hlt : m.codeSize + offset.toNat < memorySize
      · simp [hlt]
      · simp [hlt]
    · -- different offsets have different addresses
      have hne : ¬ m.codeSize + written.toNat = m.codeSize + offset.toNat := by
        rw [Nat.add_left_cancel_iff, UInt8.toNat_inj]
        exact fun h => heq h.symm
      rw [if_neg hne, ih, List.lookup_cons, beq_false_of_ne heq]

end Machine

/-! ### What commands store -/

namespace Exec

variable {α β : Type} {m m' : Machine} {ws : List (UInt8 × UInt8)} {x : Exec α} {f : α → Exec β}
  {v : α}

/-- On the machine `m` the action makes the stores `ws` if it succeeds, and none if it fails. -/
structure Stores (m : Machine) (ws : List (UInt8 × UInt8)) (x : Exec α) : Prop where
  ok {v : α} {m' : Machine} : x.run m = .ok v m' → m.Stored m' ws
  error {t : Trap} {m' : Machine} : x.run m = .error t m' → m.Stored m' []

theorem Stores.bind (hx : x.run m = .ok v m') (hm : m.Stored m' []) (hf : Stores m' ws (f v)) :
    Stores m ws (x >>= f) := by
  have hrun : (x >>= f).run m = (f v).run m' := by rw [EStateM.run_bind, hx]
  constructor
  · intro u m'' h
    rw [hrun] at h
    have hstored := hm.trans (hf.ok h)
    rwa [List.append_nil] at hstored
  · intro t m'' h
    rw [hrun] at h
    exact hm.trans (hf.error h)

theorem Stores.bind_error {t : Trap} (hx : x.run m = .error t m') (hm : m.Stored m' []) :
    Stores m ws (x >>= f) := by
  have hrun : (x >>= f).run m = .error t m' := by rw [EStateM.run_bind, hx]
  constructor
  · intro u m'' h
    cases hrun.symm.trans h
  · intro t' m'' h
    cases hrun.symm.trans h
    exact hm

theorem stores_writeData (m : Machine) (offset v : UInt8) :
    Stores m [(offset, v)] (writeData offset.toNat v) := by
  have hrun := run_writeData_natCast m offset.toNat v
  by_cases hlt : m.codeSize + offset.toNat < memorySize
  · rw [dif_pos hlt] at hrun
    constructor
    · intro u m' h
      cases hrun.symm.trans h
      refine ⟨rfl, ?_⟩
      show m.memory.set _ v hlt = m.memory.setIfInBounds _ v
      simp [Vector.set, Vector.setIfInBounds, Array.setIfInBounds, hlt]
    · intro t m' h
      cases hrun.symm.trans h
  · rw [dif_neg hlt] at hrun
    constructor
    · intro u m' h
      cases hrun.symm.trans h
    · intro t m' h
      cases hrun.symm.trans h
      exact ⟨rfl, rfl⟩

end Exec

namespace Command

open Exec

/-- The offset and the byte that a command stores if it succeeds. -/
def store? (m : Machine) : Command UInt8 → Option (UInt8 × UInt8)
  | store source offset => some (offset, m.registers.get source)
  | inputMemory offset => (LineStream.readByte m.input).1.toOption.map fun v => (offset, v)
  | _ => none

/-- Without a store the memory stays as it is. -/
theorem readonly_stored (m : Machine) : Readonly (m.Stored · []) fun _ => True where
  registers _ h := ⟨h.1, h.2⟩
  flags _ _ h := ⟨h.1, h.2⟩
  halted h := ⟨h.1, h.2⟩
  output _ h := ⟨h.1, h.2⟩
  input h := ⟨h.1, h.2⟩
  outOfBoundsRead _ _ _ := trivial
  unreadable _ _ := trivial

theorem stores_input (m : Machine) (offset : UInt8) :
    Stores m ((inputMemory offset).store? m).toList (inputMemory offset).perform := by
  have hinput : m.Stored { m with input := (LineStream.readByte m.input).2 } [] := ⟨rfl, rfl⟩
  have hrun := run_readInput m
  unfold store?
  cases hr : (LineStream.readByte m.input).1 with
  | ok v =>
    rw [hr] at hrun
    exact .bind hrun hinput (stores_writeData _ offset v)
  | error t =>
    rw [hr] at hrun
    exact .bind_error hrun hinput

/-- **What a command stores.** -/
theorem stores_perform (c : Command UInt8) (m : Machine) :
    Stores m (c.store? m).toList c.perform := by
  by_cases hstore : ∃ source offset, c = .store source offset
  · obtain ⟨source, offset, rfl⟩ := hstore
    exact .bind (run_register source) ⟨rfl, rfl⟩ (stores_writeData m offset _)
  by_cases hinput : ∃ offset, c = .inputMemory offset
  · obtain ⟨offset, rfl⟩ := hinput
    exact stores_input m offset
  have hnone : c.store? m = none := by
    unfold store?
    split
    · exact absurd ⟨_, _, rfl⟩ hstore
    · exact absurd ⟨_, rfl⟩ hinput
    · rfl
  have hp : Preserves (m.Stored · []) (fun _ => True) c.perform :=
    preserves_of_readonly (readonly_stored m) (fun source offset hc => absurd ⟨_, _, hc⟩ hstore)
      (fun offset hc => absurd ⟨_, hc⟩ hinput) fun _ _ _ _ h => ⟨h.1, h.2⟩
  rw [hnone]
  exact ⟨fun h => hp.ok ⟨rfl, rfl⟩ h, fun h => (hp.error ⟨rfl, rfl⟩ h).1⟩

end Command

/-! ### What steps store -/

namespace Machine

variable {m m' : Machine} {op : Opcode} {args rest : List UInt8} {c : Command UInt8}

theorem eq_str (h : op.operation = .store) : op = .str := by
  cases op <;> first | rfl | cases h

theorem eq_inputMemory (h : op.operation = .inputMemory) : op = .inputMemory := by
  cases op <;> first | rfl | cases h

/-- A step that performs a command stores what the command does. -/
theorem store?_of_ok (h : m.ahead = op.toByte :: (args ++ rest))
    (hc : op.operation.command? args = some c) (hok : m.call.1 = .ok op) :
    m.store? = c.store? m := by
  obtain ⟨hop, rfl⟩ := Operation.command?_eq_some_iff.1 hc
  unfold store?
  rw [hok, h]
  cases c with
  | store r offset =>
    obtain rfl := eq_str hop
    simp [Command.bytes, Command.store?]
  | inputMemory offset =>
    obtain rfl := eq_inputMemory hop
    rfl
  | _ =>
    -- the opcode is neither of the two that store
    split
    · next hstr _ => cases hstr; cases hop
    · next hinput _ => cases hinput; cases hop
    · rfl

theorem store?_of_passed (h : m.ahead = [op.toByte]) (hok : m.call.1 = .ok op) :
    m.store? = none := by
  unfold store?
  rw [hok, h]
  split <;> first | rfl | next heq => cases heq

theorem call_of_ok (h : m.step = .ok op m') : m.call = (.ok op, m') := by
  rw [call, h]

theorem call_of_error {t : Trap} (h : m.step = .error t m') : m.call = (.error t, m') := by
  rw [call, h]

/-- What a step comes to, by what it does to the machine: it is stuck in front of a command, passes
over the operand of a branch that is cut off, or performs a command, which may fail. -/
inductive Called (m : Machine) : Except Trap Opcode × Machine → Prop
  | stuck {t : Trap} (k : Nat) : Called m (.error t, m.advance k)
  | passed {op : Opcode} {cond : Condition} (h : m.ahead = [op.toByte])
      (hc : op.operation = .branch cond) : Called m (.ok op, { m.advance 2 with steps := m.steps + 1 })
  | failed {c : Command UInt8} {t : Trap} {m' : Machine} (k : Nat)
      (hr : c.perform.run (m.advance k) = .error t m') : Called m (.error t, m')
  | performed {op : Opcode} {args rest : List UInt8} {c : Command UInt8} {m' : Machine}
      (h : m.ahead = op.toByte :: (args ++ rest)) (hc : op.operation.command? args = some c)
      (hr : c.perform.run (m.advance (1 + args.length)) = .ok () m') :
      Called m (.ok op, { m' with steps := m'.steps + 1 })

/-- **What a step does to the machine**, whatever bytes are ahead. -/
theorem called (m : Machine) : m.Called m.call := by
  have hstep := m.stepped
  generalize hr : m.step = r at hstep
  cases hstep with
  | behind h =>
    rw [call_of_error hr]
    exact .stuck 0
  | noOpcode h hop =>
    rw [call_of_error hr]
    exact .stuck 1
  | stuck h ho htakes =>
    rw [call_of_error hr]
    exact .stuck _
  | passed h hc hnot =>
    rw [call_of_ok hr]
    exact .passed h hc
  | @performed op args rest c h hc =>
    cases hp : (m.advance (1 + args.length)).perform op c with
    | error t m' =>
      rw [call_of_error (hr.trans hp)]
      exact .failed _ (run_of_perform_error hp)
    | ok op' m' =>
      obtain ⟨rfl, m₁, hrun, rfl⟩ := run_of_perform_ok hp
      rw [call_of_ok (hr.trans hp)]
      exact .performed h hc hrun

theorem store?_of_error {t : Trap} (h : m.call.1 = .error t) : m.store? = none := by
  rw [store?, h]

/-- **What a step stores**, whatever bytes are ahead. -/
theorem call_stored (m : Machine) : m.Stored m.call.2 m.store?.toList := by
  have hcalled := m.called
  generalize hr : m.call = r at hcalled
  cases hcalled with
  | stuck k =>
    rw [store?_of_error (congrArg Prod.fst hr)]
    exact ⟨rfl, rfl⟩
  | passed h hc =>
    rw [store?_of_passed h (congrArg Prod.fst hr)]
    exact ⟨rfl, rfl⟩
  | @failed c t m' k hrun =>
    rw [store?_of_error (congrArg Prod.fst hr)]
    exact ((Command.stores_perform c (m.advance k)).error hrun).of_advance
  | @performed op args rest c m' h hc hrun =>
    have hstored := ((Command.stores_perform c (m.advance _)).ok hrun).of_advance
    rw [store?_of_ok h hc (congrArg Prod.fst hr)]
    exact ⟨hstored.codeSize_eq, hstored.memory_eq⟩

/-! ### Any number of steps -/

/-- **Any number of steps** make the stores that each of them makes. -/
theorem stored_calls (n : Nat) (m : Machine) : m.Stored (m.calls n).2 (m.stores n) := by
  induction n generalizing m with
  | zero => exact ⟨rfl, rfl⟩
  | succ n ih => exact m.call_stored.trans (ih m.call.2)

/-- What a step has stored is the operand of the instruction that stored it. -/
theorem operand_of_store? {offset v : UInt8} (h : m.store? = some (offset, v)) :
    m.call.1 = .ok .str ∧ m.ahead[2]? = some offset ∨
      m.call.1 = .ok .inputMemory ∧ m.ahead[1]? = some offset := by
  unfold store? at h
  split at h
  · next b source offset' rest hok hahead =>
    obtain ⟨r, -, heq⟩ := Option.map_eq_some_iff.1 h
    cases heq
    exact .inl ⟨hok, by rw [hahead]; rfl⟩
  · next b offset' rest hok hahead =>
    obtain ⟨u, -, heq⟩ := Option.map_eq_some_iff.1 h
    cases heq
    exact .inr ⟨hok, by rw [hahead]; rfl⟩
  · cases h

theorem run_readData_data? (m : Machine) (offset : UInt8) : (Exec.readData offset.toNat).run m =
    (m.data? offset).elim (.error (.fault (.outOfBoundsRead offset.toNat)) m) (.ok · m) := by
  rw [Exec.run_readData_natCast, data?]
  by_cases hlt : m.codeSize + offset.toNat < memorySize
  · rw [dif_pos hlt, Vector.getElem?_eq_getElem hlt, Option.elim_some]
  · rw [dif_neg hlt, Vector.getElem?_eq_none (Nat.le_of_not_lt hlt), Option.elim_none]

/-- `LDR` delivers the byte of data at its offset to its register. -/
theorem step_load {b offset : UInt8} {r : Register}
    (h : m.ahead = Opcode.ldr.toByte :: b :: offset :: rest) (hr : Asm256.register? b = some r) :
    m.step = (m.data? offset).elim
      (.error (.fault (.outOfBoundsRead offset.toNat)) (m.advance 3))
      fun v => .ok .ldr
        { m.advance 3 with registers := m.registers.set r v r.isLt, steps := m.steps + 1 } := by
  have hc : Opcode.ldr.operation.command? [b, offset] = some (.load r offset) := by
    simp [Opcode.operation, Operation.command?, hr]
  rw [step_eq h hc]
  show (m.advance 3).perform .ldr (.load r offset) = _
  rw [perform, Command.perform, EStateM.run_bind, run_readData_data?, data?_advance]
  cases m.data? offset <;> rfl

/-- `PRINT` delivers the byte of data at its offset to the output. -/
theorem step_printMemory {offset : UInt8}
    (h : m.ahead = Opcode.printMemory.toByte :: offset :: rest) :
    m.step = (m.data? offset).elim
      (.error (.fault (.outOfBoundsRead offset.toNat)) (m.advance 2))
      fun v => .ok .printMemory
        { m.advance 2 with
          output := m.output ++ LineStream.written (toString v.toNat), steps := m.steps + 1 } := by
  have hc : Opcode.printMemory.operation.command? [offset] = some (.printMemory offset) := rfl
  rw [step_eq h hc]
  show (m.advance 2).perform .printMemory (.printMemory offset) = _
  rw [perform, Command.perform, EStateM.run_bind, run_readData_data?, data?_advance]
  cases m.data? offset <;> rfl

end Machine

/-- **Code is read-only, and the data is a store.**  After any number of steps on any machine, also
behind steps that failed, the code is what it was; a step leaves the memory as it is, or it is an
`STR` or an `INPUT` that succeeds, and the byte at its operand's offset is all that changes; a byte
of data is the one stored last at its offset, or what it was at first if there was none; and that is
what `LDR` and `PRINT` deliver. -/
theorem data_is_a_store (m : Machine) (n : Nat) :
    let m' := (m.calls n).2
    m'.codeSize = m.codeSize ∧ m'.code = m.code ∧
    (m'.store? = none ∧ m'.call.2.memory = m'.memory ∨ ∃ offset v, m'.store? = some (offset, v) ∧
      (m'.call.1 = .ok .str ∧ m'.ahead[2]? = some offset ∨
        m'.call.1 = .ok .inputMemory ∧ m'.ahead[1]? = some offset) ∧
      m'.call.2.memory = m'.memory.setIfInBounds (m.codeSize + offset.toNat) v) ∧
    ∀ offset : UInt8,
      m'.data? offset =
        (m.data? offset).map (fun initial => ((m.stores n).lookup offset).getD initial) ∧
      (∀ b r rest, m'.ahead = Opcode.ldr.toByte :: b :: offset :: rest → register? b = some r →
        m'.step = (m'.data? offset).elim
          (.error (.fault (.outOfBoundsRead offset.toNat)) (m'.advance 3))
          fun v => .ok .ldr
            { m'.advance 3 with registers := m'.registers.set r v r.isLt, steps := m'.steps + 1 }) ∧
      (∀ rest, m'.ahead = Opcode.printMemory.toByte :: offset :: rest →
        m'.step = (m'.data? offset).elim
          (.error (.fault (.outOfBoundsRead offset.toNat)) (m'.advance 2))
          fun v => .ok .printMemory
            { m'.advance 2 with
              output := m'.output ++ LineStream.written (toString v.toNat),
              steps := m'.steps + 1 }) := by
  intro m'
  have hcalls : m.Stored m' (m.stores n) := Machine.stored_calls n m
  have hcall := m'.call_stored
  refine ⟨hcalls.codeSize_eq, hcalls.code_eq, ?_, fun offset => ⟨hcalls.data?_eq offset, ?_, ?_⟩⟩
  · cases hw : m'.store? with
    | none =>
      rw [hw] at hcall
      exact .inl ⟨rfl, hcall.memory_eq⟩
    | some w =>
      rw [hw] at hcall
      refine .inr ⟨w.1, w.2, rfl, Machine.operand_of_store? hw, ?_⟩
      rw [← hcalls.codeSize_eq]
      exact hcall.memory_eq
  · intro b r rest h hr
    exact Machine.step_load h hr
  · intro rest h
    exact Machine.step_printMemory h

/-- A byte that is stored over another one, and loaded again. -/
theorem data_is_a_store_loaded : ∃ m,
    Machine.load (0x02 :: 0 :: 0 :: 0x01 :: 1 :: 0 :: List.replicate 250 9)
      (7 :: List.replicate 12 0) 6 [] = .ok m ∧
    m.data? 0 = some 9 ∧ m.stores 1 = [(0, 7)] ∧ (m.calls 1).2.data? 0 = some 7 ∧
    ∃ m', (m.calls 1).2.step = .ok .ldr m' ∧ m'.registers.get 1 = 7 := by
  obtain ⟨m, hload, hm⟩ := exists_ok_of_any (p := fun m : Machine =>
    decide (m.data? 0 = some 9) && decide (m.stores 1 = [(0, 7)]) &&
      decide ((m.calls 1).2.ahead = [0x01, 1, 0])) (x := Machine.load
        (0x02 :: 0 :: 0 :: 0x01 :: 1 :: 0 :: List.replicate 250 9) (7 :: List.replicate 12 0) 6 [])
    (by decide +kernel)
  simp only [Bool.and_eq_true, decide_eq_true_eq] at hm
  obtain ⟨⟨hdata, hstores⟩, hahead⟩ := hm
  obtain ⟨-, -, -, hstore⟩ := data_is_a_store m 1
  obtain ⟨hoffset, hldr, -⟩ := hstore 0
  have hseven : (m.calls 1).2.data? 0 = some 7 := by
    rw [hoffset, hdata, hstores]
    rfl
  have hstep := hldr 1 1 [] hahead rfl
  rw [hseven] at hstep
  refine ⟨m, hload, hdata, hstores, hseven, _, hstep, ?_⟩
  show ((m.calls 1).2.registers.set 1 7)[1] = 7
  rw [Vector.getElem_set_self]

end Asm256
