/-
Listings that assemble to the code again.

The source of a listing is assembled exactly if all its entries can be written
and all targets of branches are addresses of entries (`Listing.Complete`), and
then it is assembled to the code that is listed.  The labels of the source are
made from addresses, so that each stands for the address it is made from, which
is the byte that it is written for:
* `Listing.Sweeps.wellFormed_script_iff` — whether the script of a listing is well-formed;
* `Listing.Sweeps.code_of_layout` — what it is assembled to;
* `reassembly_iff` — both together, for each memory and each size of code.
-/
import Asm256.Proofs.Listing.Source
import Asm256.Proofs.Listing.Sweep
import Asm256.Proofs.Script.Rejection

namespace Asm256

variable {e : Entry} {es : List Entry} {ns : List Nat} {bytes : List UInt8} {n : Nat}
  {name : String}

namespace Listing

/-- A listing that can be written and that branches stay in: all its entries are instructions, the
bytes of registers are below the number of registers, and targets are addresses of entries. -/
structure Complete (es : List Entry) : Prop where
  instruction : ∀ e ∈ es, e.opcode?.isSome
  register : ∀ e ∈ es, ∀ v, (OperandKind.register, v) ∈ e.operands → v.toNat < registerCount
  target : ∀ n ∈ targets es, ∃ e ∈ es, e.address = n

theorem complete_iff : Complete es ↔
    (∀ e ∈ es, e.Writable) ∧ ∀ n ∈ targets es, ∃ e ∈ es, e.address = n := by
  constructor
  · rintro ⟨hi, hr, ht⟩
    refine ⟨fun e he => ⟨hi e he, ?_⟩, ht⟩
    rintro ⟨k, v⟩ ho rfl
    exact hr e he v ho
  · rintro ⟨hw, ht⟩
    exact ⟨fun e he => (hw e he).1, fun e he v ho => (hw e he).2 _ ho rfl, ht⟩

theorem mem_entry_targets :
    n ∈ e.targets ↔ ∃ v, (OperandKind.label, v) ∈ e.operands ∧ v.toNat = n := by
  simp only [Entry.targets, List.mem_map, List.mem_filter, decide_eq_true_eq]
  constructor
  · rintro ⟨⟨k, v⟩, ⟨ho, rfl⟩, rfl⟩
    exact ⟨v, ho, rfl⟩
  · rintro ⟨v, ho, rfl⟩
    exact ⟨(.label, v), ⟨ho, rfl⟩, rfl⟩

theorem mem_targets : n ∈ targets es ↔ ∃ e ∈ es, n ∈ e.targets := by
  rw [targets, List.mem_eraseDups, List.mem_mergeSort, List.mem_flatMap]

/-- The order of the targets does not matter for the source, nor how often each is one. -/
theorem source_eq (es : List Entry) :
    source es = "\n".intercalate (es.map (sourceLine (es.flatMap Entry.targets))) := by
  have hline : ∀ e, sourceLine (targets es) e = sourceLine (es.flatMap Entry.targets) e := by
    intro e
    simp only [sourceLine, targets, List.mem_eraseDups, List.mem_mergeSort]
  rw [source, funext hline]

/-! ### The script of a listing -/

/-- The lines of entries define the labels of those that are targets. -/
theorem names_map_scriptLine (ns : List Nat) (es : List Entry) :
    Script.names (es.map (scriptLine ns)) =
      ((es.map Entry.address).filter (· ∈ ns)).map labelName := by
  induction es with
  | nil => rfl
  | cons e es ih =>
    rw [Script.names, List.map_cons, List.flatMap_cons, ← Script.names, ih, List.map_cons,
      List.filter_cons, scriptLine]
    by_cases h : e.address ∈ ns <;> simp [h]

theorem mem_names_script : name ∈ (script es).names ↔
    ∃ e ∈ es, e.address ∈ targets es ∧ labelName e.address = name := by
  rw [script, names_map_scriptLine]
  simp only [List.mem_map, List.mem_filter, decide_eq_true_eq]
  constructor
  · rintro ⟨n, ⟨⟨e, he, rfl⟩, hn⟩, rfl⟩
    exact ⟨e, he, hn, rfl⟩
  · rintro ⟨e, he, hn, rfl⟩
    exact ⟨e.address, ⟨⟨e, he, rfl⟩, hn⟩, rfl⟩

theorem instructions_script (es : List Entry) :
    (script es).instructions = es.filterMap Entry.instruction? := by
  rw [script, Script.instructions, List.filterMap_map]
  rfl

/-- The line of an instruction takes as many bytes as the instruction. -/
theorem size_scriptLine (h : e.Writable) : (scriptLine ns e).size = e.size := by
  obtain ⟨a, op, m, os⟩ | ⟨a, byte⟩ := e
  · simp [scriptLine, Line.size, Entry.instruction?, Instruction.size, Entry.size, Entry.raw,
      Nat.add_comm]
  · exact absurd h (Entry.not_writable_data a byte)

variable (hw : ∀ e ∈ es, e.Writable)

include hw in
theorem size_script : (script es).size = (es.map Entry.size).sum := by
  rw [script, Script.size, List.map_map]
  exact congrArg List.sum (List.map_congr_left fun e he => size_scriptLine (hw e he))

/-! ### Whether it is well-formed -/

variable {i : Instruction}

theorem exists_of_mem_instructions (h : i ∈ (script es).instructions) :
    ∃ n op m os, .instruction n op m os ∈ es ∧ i = ⟨m, os.map fun o => o.1.operand o.2⟩ := by
  rw [instructions_script, List.mem_filterMap] at h
  obtain ⟨e, he, hi⟩ := h
  obtain ⟨n, op, m, os⟩ | ⟨n, byte⟩ := e
  · exact ⟨n, op, m, os, he, (Option.some.inj hi).symm⟩
  · cases hi

theorem mem_instructions {a : Nat} {op : Opcode} {m : Mnemonic} {os : List (OperandKind × UInt8)}
    (h : .instruction a op m os ∈ es) :
    ⟨m, os.map fun o => o.1.operand o.2⟩ ∈ (script es).instructions := by
  rw [instructions_script]
  exact List.mem_filterMap.2 ⟨_, h, rfl⟩

theorem kinds_map_operand (m : Mnemonic) (os : List (OperandKind × UInt8)) :
    Instruction.kinds ⟨m, os.map fun o => o.1.operand o.2⟩ = os.map Prod.fst := by
  rw [Instruction.kinds, List.map_map]
  exact List.map_congr_left fun o _ => o.1.kind_operand o.2

/-- An instruction that is listed is in the table with its opcode. -/
theorem Sweeps.mem_table (h : Sweeps .standard n bytes es) {a : Nat} {op : Opcode} {m : Mnemonic}
    {os : List (OperandKind × UInt8)} (hmem : .instruction a op m os ∈ es) :
    (m, os.map Prod.fst, op) ∈ SignatureTree.table :=
  SignatureTree.find?_standard_iff.1
    (SignatureTree.find?_of_registration? (h.registration?_of_mem hmem))

/-- The labels of a script are defined exactly if the targets are addresses of entries. -/
theorem defined_iff : (∀ i ∈ (script es).instructions, ∀ name, .label name ∈ i.operands →
    name ∈ (script es).names) ↔ ∀ n ∈ targets es, ∃ e ∈ es, e.address = n := by
  constructor
  · intro h n hn
    obtain ⟨e, he, htarget⟩ := mem_targets.1 hn
    obtain ⟨a, op, m, os⟩ | ⟨a, byte⟩ := e
    · obtain ⟨v, ho, rfl⟩ := mem_entry_targets.1 htarget
      obtain ⟨f, hf, -, hname⟩ := mem_names_script.1
        (h _ (mem_instructions he) (labelName v.toNat) (List.mem_map.2 ⟨(.label, v), ho, rfl⟩))
      exact ⟨f, hf, labelName_injective hname⟩
    · simp [Entry.targets, Entry.operands] at htarget
  · intro h i hi name hname
    obtain ⟨a, op, m, os, he, rfl⟩ := exists_of_mem_instructions hi
    obtain ⟨⟨k, v⟩, ho, heq⟩ := List.mem_map.1 hname
    -- only labels are listed as labels
    cases k with
    | label =>
      cases heq
      have htarget : v.toNat ∈ targets es :=
        mem_targets.2 ⟨_, he, mem_entry_targets.2 ⟨v, ho, rfl⟩⟩
      obtain ⟨f, hf, haddress⟩ := h _ htarget
      exact mem_names_script.2 ⟨f, hf, haddress ▸ htarget, by rw [haddress]⟩
    | register | memory | literal => cases heq

include hw in
/-- **Whether the script of a listing is well-formed**: if all branches stay in it. -/
theorem Sweeps.wellFormed_script_iff (h : Sweeps .standard 0 bytes es)
    (hle : bytes.length ≤ memorySize) :
    (script es).WellFormed ↔ ∀ n ∈ targets es, ∃ e ∈ es, e.address = n := by
  rw [← defined_iff]
  refine ⟨Script.WellFormed.defined, fun hdefined => ⟨?_, ?_, ?_, ?_, hdefined, ?_⟩⟩
  · have hnodup : (es.map Entry.address).Nodup :=
      List.pairwise_map.2 (h.pairwise_address.imp fun hlt => Nat.ne_of_lt hlt)
    rw [script, names_map_scriptLine]
    exact (hnodup.filter _).map labelName_injective
  · intro name hname
    obtain ⟨e, -, -, rfl⟩ := mem_names_script.1 hname
    exact Item.labelName_labelName _
  · intro i hi
    obtain ⟨a, op, m, os, he, rfl⟩ := exists_of_mem_instructions hi
    rw [kinds_map_operand]
    exact ⟨op, h.mem_table he⟩
  · intro i hi o ho
    obtain ⟨a, op, m, os, he, rfl⟩ := exists_of_mem_instructions hi
    obtain ⟨o', ho', rfl⟩ := List.mem_map.1 ho
    exact ((hw _ he).2 o' ho').writable
  · rw [size_script hw, h.sum_size]
    exact hle

/-! ### What it is assembled to -/

/-- Each label of the script stands for the address that it is made from. -/
theorem Sweeps.eq_labelName {tree : SignatureTree} (h : Sweeps tree n bytes es)
    (hw : ∀ e ∈ es, e.Writable) (ns : List Nat) :
    ∀ l ∈ Script.addressesFrom n (es.map (scriptLine ns)), l.1 = labelName l.2 := by
  induction h with
  | nil => simp [Script.addressesFrom]
  | @instruction n op m kinds values bytes es _ hlen _ ih =>
    rw [List.forall_mem_cons] at hw
    intro l hl
    rw [List.map_cons, Script.addressesFrom, size_scriptLine hw.1, size_instruction n op m hlen,
      ← Nat.add_assoc, List.mem_append] at hl
    rcases hl with hl | hl
    · -- the label in front of an entry is made from its address
      obtain ⟨name, hname, rfl⟩ := List.mem_map.1 hl
      rw [scriptLine] at hname
      split at hname
      · exact List.mem_singleton.1 hname
      · simp at hname
    · exact ih hw.2 l hl
  | data _ _ _ =>
    rw [List.forall_mem_cons] at hw
    exact absurd hw.1 (Entry.not_writable_data _ _)

include hw in
/-- An operand that is listed stands for the byte that it is listed for. -/
theorem Sweeps.codeByte_operand (h : Sweeps .standard 0 bytes es) (hwf : (script es).WellFormed)
    {a : Nat} {op : Opcode} {m : Mnemonic} {os : List (OperandKind × UInt8)}
    (he : .instruction a op m os ∈ es) {o : OperandKind × UInt8} (ho : o ∈ os) :
    (o.1.operand o.2).codeByte (script es).addresses = o.2 := by
  obtain ⟨k, v⟩ := o
  cases k with
  | register | memory | literal => exact Byte.wrap_toNat v
  | label =>
    have hname := hwf.defined _ (mem_instructions he) (labelName v.toNat)
      (List.mem_map.2 ⟨(.label, v), ho, rfl⟩)
    rw [← Script.map_fst_addressesFrom 0] at hname
    obtain ⟨l, hl, hfst⟩ := List.mem_map.1 hname
    obtain ⟨k, hk⟩ := Option.isSome_iff_exists.1
      (List.lookup_isSome_iff.2 ⟨l, hl, beq_iff_eq.2 hfst.symm⟩)
    obtain ⟨front, back, heq, -⟩ := List.lookup_eq_some_iff.1 hk
    have hmem : (labelName v.toNat, k) ∈ Script.addressesFrom 0 (script es) := by
      rw [heq]
      simp
    have hv : v.toNat = k := labelName_injective (h.eq_labelName hw (targets es) _ hmem)
    have hbyte : Operand.codeByte (script es).addresses (.label (labelName v.toNat)) =
        Byte.wrap ((((script es).addresses.lookup (labelName v.toNat)).getD 0 : Nat)) := rfl
    rw [OperandKind.operand, hbyte, Script.addresses, hk, Option.getD_some, ← hv, Byte.wrap_toNat]

/-- Instructions with the bytes of their entries make up the code of the listing. -/
theorem flatten_eq {addresses : List (String × Nat)} {codes : List (List UInt8)}
    (hcodes : List.Forall₂ (Instruction.Encoded addresses) (es.filterMap Entry.instruction?) codes)
    (h : ∀ e ∈ es, ∃ i, e.instruction? = some i ∧
      ∀ code, i.Encoded addresses code → code = e.raw) :
    codes.flatten = es.flatMap Entry.raw := by
  induction es generalizing codes with
  | nil =>
    cases hcodes
    rfl
  | cons e es ih =>
    rw [List.forall_mem_cons] at h
    obtain ⟨⟨i, hi, hraw⟩, htail⟩ := h
    rw [List.filterMap_cons_some hi, List.forall₂_cons_left_iff] at hcodes
    obtain ⟨code, codes, hcode, hcodes, rfl⟩ := hcodes
    rw [List.flatten_cons, List.flatMap_cons, hraw code hcode, ih hcodes htail]

include hw in
/-- **The script of a listing is assembled to the code that is listed.** -/
theorem Sweeps.code_of_layout (h : Sweeps .standard 0 bytes es) (hwf : (script es).WellFormed)
    {a : Assembly} (hl : (script es).Layout a) : a.image.code = bytes := by
  obtain ⟨codes, hcodes, hmemory⟩ := hl.memory
  rw [instructions_script] at hcodes
  have hflatten : codes.flatten = bytes := by
    rw [← h.flatMap_raw]
    refine flatten_eq hcodes fun e he => ?_
    obtain ⟨a, op, m, os⟩ | ⟨a, byte⟩ := e
    · refine ⟨_, rfl, fun code hcode => ?_⟩
      obtain ⟨op', hop', rfl⟩ := hcode
      rw [kinds_map_operand] at hop'
      -- the table has one opcode for the mnemonic with these kinds
      have hfind := SignatureTree.find?_standard_iff.2 (h.mem_table he)
      rw [SignatureTree.find?_standard_iff.2 hop', Option.some_inj] at hfind
      rw [hfind, Entry.raw, List.map_map]
      exact congrArg _ (List.map_congr_left fun o ho => h.codeByte_operand hw hwf he ho)
    · exact absurd (hw _ he) (Entry.not_writable_data a byte)
  have hsize : (script es).size = bytes.length := by rw [size_script hw, h.sum_size]
  rw [Image.code, hmemory, hflatten, hl.codeSize, hsize, List.take_left]

/-- **A listing is assembled to its code if it is complete**, and otherwise has an error of the
program. -/
theorem Sweeps.assemble_source (h : Sweeps .standard 0 bytes es) (hle : bytes.length ≤ memorySize)
    (w : Nat) :
    (Complete es ∧ ∃ a, assemble .standard w (source es).toList = .ok a ∧ a.image.code = bytes) ∨
      (¬ Complete es ∧ ∃ e, assemble .standard w (source es).toList = .error (.source e)) := by
  rw [complete_iff]
  by_cases hw : ∀ e ∈ es, e.Writable
  · have hr := rendering_source hw
    by_cases htarget : ∀ n ∈ targets es, ∃ e ∈ es, e.address = n
    · have hwf := (h.wellFormed_script_iff hw hle).2 htarget
      obtain ⟨a, ha, hl⟩ := hwf.assemble hr w
      exact .inl ⟨⟨hw, htarget⟩, a, ha, h.code_of_layout hw hwf hl⟩
    · have hwf := mt (h.wellFormed_script_iff hw hle).1 htarget
      exact .inr ⟨fun hc => htarget hc.2, hr.source_error hwf w⟩
  · have hex : ∃ e ∈ es, ¬ e.Writable := by
      push Not at hw
      exact hw
    exact .inr ⟨fun hc => hw hc.1, (refused_source hex).assemble .standard w⟩

/-- A listing is assembled to its code exactly if it is complete. -/
theorem Sweeps.assemble_source_iff (h : Sweeps .standard 0 bytes es)
    (hle : bytes.length ≤ memorySize) (w : Nat) :
    ((∃ a, assemble .standard w (source es).toList = .ok a ∧ a.image.code = bytes) ↔
      Complete es) ∧
    (¬ Complete es → ∃ e, assemble .standard w (source es).toList = .error (.source e)) := by
  rcases h.assemble_source hle w with ⟨hc, hok⟩ | ⟨hc, e, he⟩
  · exact ⟨iff_of_true hok hc, fun hn => absurd hc hn⟩
  · refine ⟨iff_of_false ?_ hc, fun _ => ⟨e, he⟩⟩
    rintro ⟨a, ha, -⟩
    rw [he] at ha
    cases ha

end Listing

/-- **Assembly undoes disassembly on complete listings**, and on no others.  The first bytes of each
memory have a listing; its source is assembled to these bytes exactly if all its entries are
instructions, the bytes of registers are numbers of registers, and all targets of branches are
addresses of entries.  Otherwise it has an error of the program. -/
theorem reassembly_iff (memory : Memory) {codeSize : Nat} (hle : codeSize ≤ memorySize) (w : Nat) :
    ∃ es, Listing.entries .standard memory.toList codeSize = .ok es ∧
      ((∃ a, assemble .standard w (Listing.source es).toList = .ok a ∧
          a.image.code = memory.toList.take codeSize) ↔ Listing.Complete es) ∧
      (¬ Listing.Complete es →
        ∃ e, assemble .standard w (Listing.source es).toList = .error (.source e)) := by
  have hlength : codeSize ≤ memory.toList.length := by
    rw [Vector.length_toList]
    exact hle
  obtain ⟨es, hes⟩ := Listing.exists_sweeps
    (fun op => by rw [SignatureTree.registration?_standard]; rfl) 0 (memory.toList.take codeSize)
  refine ⟨es, hes.entries_eq hlength, hes.assemble_source_iff ?_ w⟩
  rw [List.length_take_of_le hlength]
  exact hle

/-- Five bytes with a complete listing, and the first four of them without one: the operand of the
last branch is missing. -/
theorem reassembly_iff_branches : ∃ (memory : Memory) (es es' : List Entry),
    5 ≤ memorySize ∧ 4 ≤ memorySize ∧
    Listing.entries .standard memory.toList 5 = .ok es ∧
    Listing.source es = "B L_d\nL_c: HALT\nL_d: B L_c" ∧
    (∃ a, assemble .standard 4 (Listing.source es).toList = .ok a ∧
      a.image.code = memory.toList.take 5) ∧
    Listing.entries .standard memory.toList 4 = .ok es' ∧
    Listing.source es' = "B L_d\nHALT\nL_d: .byte 0x0b" ∧
    ∃ e, assemble .standard 4 (Listing.source es').toList = .error (.source e) := by
  let memory : Memory :=
    ((((Vector.replicate memorySize 0).set 0 0x0b).set 1 3).set 2 0x20).set 3 0x0b |>.set 4 2
  have h5 : 5 ≤ memorySize := by decide
  have h4 : 4 ≤ memorySize := by decide
  obtain ⟨es, hes, hok, -⟩ := reassembly_iff memory h5 4
  obtain ⟨es', hes', -, herror⟩ := reassembly_iff memory h4 4
  have hbranch := SignatureTree.registration?_standard .b
  have hhalt := SignatureTree.registration?_standard .halt
  -- the last branch, which is an instruction only with its operand
  have hlast : Listing.Sweeps .standard 3 [0x0b, 2] [.instruction 3 .b .b [(.label, 2)]] :=
    @Listing.Sweeps.instruction _ _ .b _ _ [2] _ _ hbranch rfl .nil
  have hlast' : Listing.Sweeps .standard 3 [0x0b] [.data 3 0x0b] := by
    refine .data (fun op hop => ?_) .nil
    cases hop
    exact ⟨_, _, hbranch, by decide⟩
  have hsweeps : ∀ {bytes es}, Listing.Sweeps .standard 3 bytes es →
      Listing.Sweeps .standard 0 (0x0b :: 3 :: 0x20 :: bytes)
        (.instruction 0 .b .b [(.label, 3)] :: .instruction 2 .halt .halt [] :: es) := fun h =>
    @Listing.Sweeps.instruction _ _ .b _ _ [3] _ _ hbranch rfl
      (@Listing.Sweeps.instruction _ _ .halt _ _ [] _ _ hhalt rfl h)
  have htake : memory.toList.take 5 = [0x0b, 3, 0x20, 0x0b, 2] := by decide +kernel
  have htake' : memory.toList.take 4 = [0x0b, 3, 0x20, 0x0b] := by decide +kernel
  have hlist := hes.symm.trans ((htake ▸ hsweeps hlast).entries_eq (by simpa using h5))
  have hlist' := hes'.symm.trans ((htake' ▸ hsweeps hlast').entries_eq (by simpa using h4))
  obtain rfl := Except.ok.inj hlist
  obtain rfl := Except.ok.inj hlist'
  refine ⟨memory, _, _, h5, h4, hes, ?_, hok.2 ⟨?_, ?_, ?_⟩, hes', ?_, herror fun hc => ?_⟩
  · rw [Listing.source_eq]
    decide +kernel
  · simp [Entry.opcode?]
  · simp [Entry.operands]
  · simp [Listing.mem_targets, Entry.targets, Entry.operands, Entry.address]
    omega
  · rw [Listing.source_eq]
    decide +kernel
  · have hinst := hc.instruction (.data 3 0x0b) (by simp)
    cases hinst

end Asm256
