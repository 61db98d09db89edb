/-
The sweep over code.

`Listing.Sweeps tree n bytes es` says that the entries `es` are those of the
bytes of code from address `n` on: an instruction takes its opcode and as many
bytes as its signature has operands, and a byte that is no opcode, or whose
operands reach behind the bytes, stands for itself.
* `Listing.Sweeps.sweep_eq` — the sweep finds these entries, whatever stands behind the code;
* `Listing.exists_sweeps` — code has entries when the tree knows all opcodes;
* `Listing.Sweeps.flatMap_raw`, `Listing.Sweeps.address_eq` — the entries tile the code: their bytes
  make it up, and each starts where the one in front of it ends.
-/
import Asm256.Listing
import Asm256.Proofs.Instruction.Registration

namespace Asm256.Listing

variable {tree : SignatureTree} {n : Nat} {bytes : List UInt8} {es : List Entry}

/-- The entries of the bytes of code from an address on. -/
inductive Sweeps (tree : SignatureTree) : Nat → List UInt8 → List Entry → Prop
  | nil {n : Nat} : Sweeps tree n [] []
  | instruction {n : Nat} {op : Opcode} {m : Mnemonic} {kinds : List OperandKind}
      {values bytes : List UInt8} {es : List Entry} (hop : tree.registration? op = some (m, kinds))
      (hlen : values.length = kinds.length) (h : Sweeps tree (n + 1 + kinds.length) bytes es) :
      Sweeps tree n (op.toByte :: (values ++ bytes))
        (.instruction n op m (kinds.zip values) :: es)
  | data {n : Nat} {byte : UInt8} {bytes : List UInt8} {es : List Entry}
      (hbyte : ∀ op, Opcode.ofByte? byte = some op →
        ∃ m kinds, tree.registration? op = some (m, kinds) ∧ bytes.length < kinds.length)
      (h : Sweeps tree (n + 1) bytes es) : Sweeps tree n (byte :: bytes) (.data n byte :: es)

/-- **The sweep finds the entries of the code**, whatever stands behind it. -/
theorem Sweeps.sweep_eq (h : Sweeps tree n bytes es) (rest : List UInt8) :
    sweep tree (n + bytes.length) n (bytes ++ rest) = .ok es := by
  induction h with
  | nil => rw [sweep.eq_def, if_neg (by simp)]
  | @instruction n op m kinds values bytes es hop hlen _ ih =>
    have hend : n + (op.toByte :: (values ++ bytes)).length =
        n + 1 + kinds.length + bytes.length := by
      rw [List.length_cons, List.length_append, hlen]
      omega
    rw [hend, sweep.eq_def, if_pos (by omega)]
    simp only [List.cons_append, List.append_assoc, Opcode.ofByte?_toByte, hop, ← hlen,
      List.take_left, List.drop_left, Nat.lt_irrefl, if_false]
    rw [if_pos (by omega), hlen, ih]
    rfl
  | @data n byte bytes es hbyte _ ih =>
    have hend : n + (byte :: bytes).length = n + 1 + bytes.length := by
      rw [List.length_cons]
      omega
    rw [hend, sweep.eq_def, if_pos (by omega)]
    simp only [List.cons_append]
    cases hop : Opcode.ofByte? byte with
    | none => simp only [ih]; rfl
    | some op =>
      -- the operands of the opcode would reach behind the code
      obtain ⟨m, kinds, hr, hlt⟩ := hbyte op hop
      simp only [hr, ih]
      rw [if_neg (by omega)]
      rfl

/-- The entries of the front of a memory are those of its bytes. -/
theorem Sweeps.entries_eq {memory : List UInt8} {codeSize : Nat}
    (h : Sweeps tree 0 (memory.take codeSize) es) (hle : codeSize ≤ memory.length) :
    entries tree memory codeSize = .ok es := by
  have hsweep := h.sweep_eq (memory.drop codeSize)
  rwa [List.take_append_drop, List.length_take_of_le hle, Nat.zero_add] at hsweep

/-- Code has entries when the tree knows all opcodes. -/
theorem exists_sweeps (htree : ∀ op, (tree.registration? op).isSome) (n : Nat)
    (bytes : List UInt8) : ∃ es, Sweeps tree n bytes es := by
  induction hlen : bytes.length using Nat.strong_induction_on generalizing n bytes with
  | _ k ih =>
  cases bytes with
  | nil => exact ⟨[], .nil⟩
  | cons byte bytes =>
    rw [List.length_cons] at hlen
    cases hop : Opcode.ofByte? byte with
    | none =>
      obtain ⟨es, hes⟩ := ih bytes.length (by omega) (n + 1) bytes rfl
      exact ⟨_, .data (by simp [hop]) hes⟩
    | some op =>
      obtain ⟨⟨m, kinds⟩, hr⟩ := Option.isSome_iff_exists.1 (htree op)
      by_cases hfit : kinds.length ≤ bytes.length
      · have hdrop : (bytes.drop kinds.length).length = bytes.length - kinds.length :=
          List.length_drop
        obtain ⟨es, hes⟩ := ih _ (by omega) (n + 1 + kinds.length) (bytes.drop kinds.length) rfl
        have hsweeps := Sweeps.instruction hr (List.length_take_of_le hfit) hes
        rw [List.take_append_drop, Opcode.toByte_of_ofByte? hop] at hsweeps
        exact ⟨_, hsweeps⟩
      · obtain ⟨es, hes⟩ := ih bytes.length (by omega) (n + 1) bytes rfl
        refine ⟨_, .data (fun op' hop' => ?_) hes⟩
        obtain rfl : op = op' := Option.some.inj (hop.symm.trans hop')
        exact ⟨m, kinds, hr, by omega⟩

/-! ### The entries tile the code -/

/-- The bytes of the entries make up the code. -/
theorem Sweeps.flatMap_raw (h : Sweeps tree n bytes es) : es.flatMap Entry.raw = bytes := by
  induction h with
  | nil => rfl
  | instruction _ hlen _ ih =>
    rw [List.flatMap_cons, ih, Entry.raw, List.map_snd_zip (by omega), List.cons_append]
  | data _ _ ih => rw [List.flatMap_cons, ih]; rfl

/-- An instruction takes a byte for its opcode and one for each operand. -/
theorem size_instruction (n : Nat) (op : Opcode) (m : Mnemonic) {kinds : List OperandKind}
    {values : List UInt8} (hlen : values.length = kinds.length) :
    (Entry.instruction n op m (kinds.zip values)).size = 1 + kinds.length := by
  simp [Entry.size, Entry.raw, hlen, Nat.add_comm]

/-- Each entry starts where the one in front of it ends. -/
theorem Sweeps.address_eq (h : Sweeps tree n bytes es) {front back : List Entry} {e : Entry}
    (heq : es = front ++ e :: back) : e.address = n + (front.map Entry.size).sum := by
  induction h generalizing front with
  | nil => simp at heq
  | @instruction n op m kinds values bytes es _ hlen _ ih =>
    rcases front with _ | ⟨f, front⟩
    · obtain ⟨rfl, -⟩ := List.cons.inj heq
      rfl
    · obtain ⟨rfl, htail⟩ := List.cons.inj heq
      rw [ih htail, List.map_cons, List.sum_cons, size_instruction n op m hlen]
      omega
  | @data n byte bytes es _ _ ih =>
    rcases front with _ | ⟨f, front⟩
    · obtain ⟨rfl, -⟩ := List.cons.inj heq
      rfl
    · obtain ⟨rfl, htail⟩ := List.cons.inj heq
      rw [ih htail, List.map_cons, List.sum_cons]
      show n + 1 + _ = n + (1 + _)
      omega

/-- The entries take as many bytes as the code. -/
theorem Sweeps.sum_size (h : Sweeps tree n bytes es) : (es.map Entry.size).sum = bytes.length := by
  rw [← h.flatMap_raw, List.length_flatMap]
  rfl

theorem Sweeps.le_address (h : Sweeps tree n bytes es) : ∀ e ∈ es, n ≤ e.address := by
  intro e he
  obtain ⟨front, back, heq⟩ := List.append_of_mem he
  have haddress := h.address_eq heq
  omega

/-- Addresses ascend. -/
theorem Sweeps.pairwise_address (h : Sweeps tree n bytes es) :
    es.Pairwise fun e f => e.address < f.address := by
  induction h with
  | nil => exact .nil
  | @instruction n _ _ _ _ _ _ _ _ h ih =>
    refine .cons (fun f hf => ?_) ih
    have hle := h.le_address f hf
    show n < f.address
    omega
  | data _ h ih => exact .cons h.le_address ih

/-- The operands of an instruction are those of a signature of its opcode. -/
theorem Sweeps.registration?_of_mem (h : Sweeps tree n bytes es) {address : Nat} {op : Opcode}
    {m : Mnemonic} {os : List (OperandKind × UInt8)} (hmem : .instruction address op m os ∈ es) :
    tree.registration? op = some (m, os.map Prod.fst) := by
  induction h with
  | nil => simp at hmem
  | instruction hop hlen _ ih =>
    rcases List.mem_cons.1 hmem with heq | hmem
    · cases heq
      rw [hop, List.map_fst_zip (by omega)]
    · exact ih hmem
  | data _ _ ih =>
    rcases List.mem_cons.1 hmem with heq | hmem
    · cases heq
    · exact ih hmem

end Asm256.Listing
