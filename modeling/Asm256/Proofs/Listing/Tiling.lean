/-
Listings of any bytes.

Whatever bytes a memory starts with, they have a listing.  Its entries tile them,
and each of them is decided by the bytes from its address on: an instruction if
the byte there is that of an opcode and the operands of its signature are in
the code, and that byte alone otherwise.
* `Listing.Sweeps.tiles` — each entry starts where the one in front of it ends;
* `Listing.Sweeps.stands` — which entry stands at an address;
* `Listing.forall₂_block` — the lines of each entry.

The main result is `listing_tiles_the_code`.
-/
import Asm256.Proofs.Listing.Execution
import Asm256.Proofs.Listing.Reassembly

namespace Asm256

/-! ### Entries at their addresses -/

/-- The entry is what stands at its address in the code, the first `codeSize` bytes of a memory: an
instruction with the bytes behind its opcode for operands, if all of them are in the code, or else
the byte there. -/
inductive Entry.Stands (memory : List UInt8) (codeSize : Nat) : Entry → Prop
  | instruction {address : Nat} {op : Opcode} {m : Mnemonic} {kinds : List OperandKind}
      (hrow : (m, kinds, op) ∈ SignatureTree.table) (hbyte : memory[address]? = some op.toByte)
      (hfits : address + 1 + kinds.length ≤ codeSize) :
      Stands memory codeSize
        (.instruction address op m (kinds.zip ((memory.drop (address + 1)).take kinds.length)))
  | data {address : Nat} {b : UInt8} (hbyte : memory[address]? = some b)
      (hcut : ∀ m kinds op, (m, kinds, op) ∈ SignatureTree.table → op.toByte = b →
        codeSize < address + 1 + kinds.length) : Stands memory codeSize (.data address b)

/-- **Which entries are instructions**: those at a byte below the number of opcodes whose whole
signature is in the code. -/
theorem Entry.Stands.isSome_opcode?_iff {memory : List UInt8} {codeSize : Nat} {e : Entry}
    (h : e.Stands memory codeSize) : e.opcode?.isSome ↔
      ∃ b, memory[e.address]? = some b ∧ b.toNat < Opcode.count ∧
        ∀ m kinds op, (m, kinds, op) ∈ SignatureTree.table → op.toByte = b →
          e.address + 1 + kinds.length ≤ codeSize := by
  cases h with
  | @instruction address op m kinds hrow hbyte hfits =>
    refine iff_of_true rfl ⟨op.toByte, hbyte, op.toByte_lt, fun m' kinds' op' hrow' heq => ?_⟩
    -- an opcode has one signature in the table
    obtain rfl := Opcode.toByte_injective heq
    obtain ⟨-, rfl⟩ := Operation.mem_table_iff.1 hrow
    obtain ⟨-, rfl⟩ := Operation.mem_table_iff.1 hrow'
    exact hfits
  | @data address b hbyte hcut =>
    refine iff_of_false Bool.false_ne_true ?_
    rintro ⟨b', hbyte', hlt, hfits⟩
    obtain rfl : b = b' := Option.some.inj (hbyte.symm.trans hbyte')
    obtain ⟨op, hop⟩ := Opcode.exists_toByte_iff.2 hlt
    have hrow := Operation.mem_table_iff.2 (And.intro (Eq.refl op.operation.mnemonic) rfl)
    exact absurd (hfits _ _ _ hrow hop) (Nat.not_le.2 (hcut _ _ _ hrow hop))

namespace Listing

variable {tree : SignatureTree} {n : Nat} {bytes memory : List UInt8} {codeSize : Nat}
  {es : List Entry} {e : Entry}

/-- The entries tile the bytes from one address to another. -/
def Tiles : (start : Nat) → List Entry → (stop : Nat) → Prop
  | start, [], stop => start = stop
  | start, e :: es, stop => e.address = start ∧ Tiles (start + e.size) es stop

/-- **Each entry starts where the one in front of it ends.** -/
theorem Sweeps.tiles (h : Sweeps tree n bytes es) : Tiles n es (n + bytes.length) := by
  induction h with
  | nil => rfl
  | @instruction n op m kinds values bytes es _ hlen _ ih =>
    refine ⟨rfl, ?_⟩
    have hstop : n + (op.toByte :: (values ++ bytes)).length =
        n + 1 + kinds.length + bytes.length := by
      rw [List.length_cons, List.length_append, hlen]
      omega
    rw [size_instruction n op m hlen, hstop, ← Nat.add_assoc]
    exact ih
  | @data n byte bytes es _ _ ih =>
    refine ⟨rfl, ?_⟩
    rw [List.length_cons, Nat.add_comm bytes.length, ← Nat.add_assoc]
    exact ih

/-- What stands in the code from an address on, and behind it. -/
theorem drop_eq_of_drop_take (hle : codeSize ≤ memory.length) {k : Nat} {b : UInt8}
    {rest : List UInt8} (h : (memory.take codeSize).drop k = b :: rest) :
    memory.drop k = b :: (rest ++ memory.drop codeSize) ∧ k + 1 + rest.length = codeSize := by
  have hlength := congrArg List.length h
  rw [List.length_drop, List.length_take_of_le hle, List.length_cons] at hlength
  refine ⟨?_, by omega⟩
  calc memory.drop k = (memory.take codeSize ++ memory.drop codeSize).drop k := by
        rw [List.take_append_drop]
    _ = (memory.take codeSize).drop k ++ memory.drop codeSize :=
        List.drop_append_of_le_length (by rw [List.length_take_of_le hle]; omega)
    _ = b :: (rest ++ memory.drop codeSize) := by rw [h, List.cons_append]

/-- **Each entry is what stands at its address.** -/
theorem Sweeps.stands (h : Sweeps .standard 0 (memory.take codeSize) es)
    (hle : codeSize ≤ memory.length) (he : e ∈ es) : e.Stands memory codeSize := by
  obtain ⟨k, haddress, hheads⟩ := h.exists_heads he
  rw [Nat.zero_add] at haddress
  generalize hcode : (memory.take codeSize).drop k = code at hheads
  cases hheads with
  | @instruction n op values rest hlen =>
    obtain rfl : n = k := haddress
    obtain ⟨hdrop, hsize⟩ := drop_eq_of_drop_take hle hcode
    have hbyte : memory[n]? = some op.toByte := by
      rw [← List.head?_drop, hdrop, List.head?_cons]
    have hvalues : (memory.drop (n + 1)).take op.operation.kinds.length = values := by
      rw [← List.tail_drop, hdrop, List.tail_cons, List.append_assoc, ← hlen, List.take_left]
    rw [List.length_append] at hsize
    rw [← hvalues]
    exact .instruction (Operation.mem_table_iff.2 ⟨rfl, rfl⟩) hbyte (by omega)
  | @data n b rest hbyte =>
    obtain rfl : n = k := haddress
    obtain ⟨hdrop, hsize⟩ := drop_eq_of_drop_take hle hcode
    refine .data (by rw [← List.head?_drop, hdrop, List.head?_cons]) ?_
    rintro m kinds op hrow rfl
    obtain ⟨-, rfl⟩ := Operation.mem_table_iff.1 hrow
    have hcut := hbyte op (Opcode.ofByte?_toByte op)
    omega

/-! ### The lines of entries -/

/-- The lines of an entry: its own, and that of its label if an instruction may branch to it. -/
inductive Block (es : List Entry) (e : Entry) : List String → Prop
  | plain (h : ∀ f ∈ es, ∀ v, (OperandKind.label, v) ∈ f.operands → v.toNat ≠ e.address) :
      Block es e [line e]
  | labelled {f : Entry} {v : UInt8} (hf : f ∈ es) (ho : (OperandKind.label, v) ∈ f.operands)
      (hv : v.toNat = e.address) : Block es e [labelName e.address ++ ":", line e]

/-- **A listing has the lines of its entries**, one after the other. -/
theorem forall₂_block (es : List Entry) :
    ∃ blocks, lines es = blocks.flatten ∧ List.Forall₂ (Block es) es blocks := by
  refine ⟨_, rfl, ?_⟩
  rw [List.forall₂_map_right_iff, List.forall₂_same]
  intro e he
  by_cases htarget : e.address ∈ es.flatMap Entry.targets
  · rw [if_pos (List.contains_iff_mem.2 htarget)]
    obtain ⟨f, hf, hmem⟩ := List.mem_flatMap.1 htarget
    obtain ⟨v, ho, hv⟩ := mem_entry_targets.1 hmem
    exact .labelled hf ho hv
  · rw [if_neg (mt List.contains_iff_mem.1 htarget)]
    refine .plain fun f hf v ho hv => htarget ?_
    exact List.mem_flatMap.2 ⟨f, hf, mem_entry_targets.2 ⟨v, ho, hv⟩⟩

end Listing

/-- **The listing tiles the code**, whatever bytes are in the memory.  For every size of code up to
that of the memory there are entries such that
* the first starts at 0, each of the others where the one in front of it ends, and the last ends
  where the code does; their bytes are those of the code, in order;
* each is what stands at its address: it is an instruction exactly if the byte there is below 33 and
  its whole signature is in the code, and then the bytes behind are its operands; otherwise it is
  that one byte;
* another memory with the same code has the same entries;
* and the listing has one line for each entry, in order, with a line for a label in front of it
  exactly if an instruction among the entries has the address of the entry as a label. -/
theorem listing_tiles_the_code {memory : List UInt8} {codeSize : Nat}
    (hle : codeSize ≤ memory.length) :
    ∃ es, Listing.entries .standard memory codeSize = .ok es ∧
      Listing.Tiles 0 es codeSize ∧ es.flatMap Entry.raw = memory.take codeSize ∧
      (∀ e ∈ es, e.Stands memory codeSize ∧
        (e.opcode?.isSome ↔ ∃ b, memory[e.address]? = some b ∧ b.toNat < 33 ∧
          ∀ m kinds op, (m, kinds, op) ∈ SignatureTree.table → op.toByte = b →
            e.address + 1 + kinds.length ≤ codeSize)) ∧
      (∀ memory' : List UInt8, memory'.take codeSize = memory.take codeSize →
        Listing.entries .standard memory' codeSize = .ok es) ∧
      ∃ blocks, Listing.lines es = blocks.flatten ∧ List.Forall₂ (Listing.Block es) es blocks := by
  have htree : ∀ op, (SignatureTree.standard.registration? op).isSome := by
    intro op
    rw [SignatureTree.registration?_standard, Option.isSome_some]
  obtain ⟨es, hes⟩ := Listing.exists_sweeps htree 0 (memory.take codeSize)
  have htiles := hes.tiles
  rw [List.length_take_of_le hle, Nat.zero_add] at htiles
  refine ⟨es, hes.entries_eq hle, htiles, hes.flatMap_raw, fun e he => ?_, fun memory' heq => ?_,
    Listing.forall₂_block es⟩
  · have hstands := hes.stands hle he
    exact ⟨hstands, hstands.isSome_opcode?_iff⟩
  · -- the other memory is long enough, for it has the same code
    have hlength := congrArg List.length heq
    rw [List.length_take, List.length_take_of_le hle] at hlength
    rw [← heq] at hes
    exact hes.entries_eq (by omega)

/-- A branch over a byte that is no opcode, and a `MOV` that is cut off in front of a byte behind the
code: its opcode is listed as data, and so is the byte behind it, whose operands are missing too. -/
theorem listing_tiles_the_code_cut_off : ∃ es blocks,
    6 ≤ [0x0b, 3, 0x21, 0x20, 0x08, 1, 0xff].length ∧
    Listing.entries .standard [0x0b, 3, 0x21, 0x20, 0x08, 1, 0xff] 6 = .ok es ∧
    es = [.instruction 0 .b .b [(.label, 3)], .data 2 0x21, .instruction 3 .halt .halt [],
      .data 4 0x08, .data 5 1] ∧
    Listing.Tiles 0 es 6 ∧ es.flatMap Entry.raw = [0x0b, 3, 0x21, 0x20, 0x08, 1] ∧
    (∀ e ∈ es, e.Stands [0x0b, 3, 0x21, 0x20, 0x08, 1, 0xff] 6) ∧
    Listing.entries .standard [0x0b, 3, 0x21, 0x20, 0x08, 1] 6 = .ok es ∧
    List.Forall₂ (Listing.Block es) es blocks ∧ blocks.flatten =
      ["    0: 0b 03        B L_d", "    2: 21           .byte 0x21", "L_d:",
        "    3: 20           HALT", "    4: 08           .byte 0x08", "    5: 01           .byte 0x01"] := by
  have hle : 6 ≤ [0x0b, 3, 0x21, 0x20, 0x08, 1, (0xff : UInt8)].length := by decide
  have hmov := SignatureTree.registration?_standard .movLiteral
  have hldr := SignatureTree.registration?_standard .ldr
  have hsweeps : Listing.Sweeps .standard 0 [0x0b, 3, 0x21, 0x20, 0x08, 1]
      [.instruction 0 .b .b [(.label, 3)], .data 2 0x21, .instruction 3 .halt .halt [],
        .data 4 0x08, .data 5 1] := by
    refine @Listing.Sweeps.instruction _ _ .b _ _ [3] _ _
      (SignatureTree.registration?_standard .b) rfl (.data (fun op hop => ?_)
        (@Listing.Sweeps.instruction _ _ .halt _ _ [] _ _
          (SignatureTree.registration?_standard .halt) rfl
          (.data (fun op hop => ?_) (.data (fun op hop => ?_) .nil))))
    · cases hop
    · cases hop
      exact ⟨_, _, hmov, by decide⟩
    · cases hop
      exact ⟨_, _, hldr, by decide⟩
  obtain ⟨es, hes, htiles, hraw, hstands, hsame, blocks, hlines, hblocks⟩ :=
    listing_tiles_the_code hle
  obtain rfl := Except.ok.inj (hes.symm.trans (hsweeps.entries_eq hle))
  refine ⟨_, blocks, hle, hes, rfl, htiles, hraw, fun e he => (hstands e he).1, hsame _ rfl, hblocks, ?_⟩
  rw [← hlines]
  decide +kernel

end Asm256
