/-
From opcodes back to signatures, under calls.

The mnemonic of an opcode and its operand kinds are looked for by two searches
of their own.  Both come to the same signature, even if the opcode has many:
* `SignatureTree.mnemonicOf?_eq`, `SignatureTree.kindsOf?_eq` — the two answers are the two parts of
  one registration;
* `SignatureTree.find?_forms_eq_some_iff` — which of the forms of a mnemonic a search for an opcode
  finds;
* `SignatureTree.Maps.registration?_eq_some_iff` — which signature is found: that of the first
  mnemonic with the opcode, and the first there in the order of kinds.

The main result is `SignatureTree.first_signature_is_found`.
-/
import Asm256.Proofs.Instruction.Sessions

namespace Asm256.SignatureTree

variable {t : SignatureTree} {m : Mnemonic} {ks : List OperandKind} {op : Opcode} {f : Form}
  {rows : List Signature}

/-! ### Two searches, one registration -/

/-- The first element that has a value is the one that the first value is found with. -/
theorem find?_isSome_eq {α β : Type} (g : α → Option β) (as : List α) :
    as.find? (fun a => (g a).isSome) =
      (as.findSome? fun a => (g a).map fun b => (a, b)).map Prod.fst := by
  induction as with
  | nil => rfl
  | cons a as ih =>
    rw [List.find?_cons, List.findSome?_cons]
    cases hg : g a with
    | none => exact ih
    | some b => rfl

/-- The search for the mnemonic answers with that of the registration. -/
theorem mnemonicOf?_eq (t : SignatureTree) (op : Opcode) :
    t.mnemonicOf? op = (t.registration? op).map Prod.fst := by
  have hany : ∀ m, ((t.forms m).any fun f => f.1 = op) =
      (((t.forms m).find? fun f => f.1 = op).map Prod.snd).isSome := by
    intro m
    rw [Option.isSome_map, List.isSome_find?]
  rw [mnemonicOf?, funext hany, find?_isSome_eq, registration?]
  simp only [Option.map_map]
  rfl

/-- The search for the operand kinds answers with those of the registration. -/
theorem kindsOf?_eq (t : SignatureTree) (op : Opcode) :
    t.kindsOf? op = (t.registration? op).map Prod.snd := by
  rw [registration?, List.map_findSome?, kindsOf?]
  refine congrArg (List.findSome? · t.mnemonics) (funext fun m => ?_)
  rw [Function.comp_apply, Option.map_map]
  rfl

/-! ### The signature that is found -/

/-- **The form that is found for an opcode** is the one whose kinds come first, among those of the
mnemonic with the opcode. -/
theorem find?_forms_eq_some_iff : ((t.forms m).find? fun f => f.1 = op) = some f ↔
    f.1 = op ∧ t.find? m f.2 = some op ∧
      ∀ ls, t.find? m ls = some op →
        f.2.map OperandKind.rank ≤ ls.map OperandKind.rank := by
  -- what is found stands in front of all other forms with the opcode
  have hfirst : ∀ {f : Form}, ((t.forms m).find? fun f => f.1 = op) = some f →
      f.1 = op ∧ t.find? m f.2 = some op ∧
        ∀ ls, t.find? m ls = some op →
          f.2.map OperandKind.rank ≤ ls.map OperandKind.rank := by
    intro f hf
    obtain ⟨hop, front, back, heq, hfront⟩ := List.find?_eq_some_iff_append.1 hf
    obtain rfl : f.1 = op := of_decide_eq_true hop
    refine ⟨rfl, mem_forms.1 (List.mem_of_find?_eq_some hf), fun ls hls => ?_⟩
    have hmem : (f.1, ls) ∈ t.forms m := mem_forms.2 hls
    have hsorted : (t.forms m).Pairwise Form.Before := Form.pairwise_before (Trie.nodup_forms _)
    rw [heq] at hmem hsorted
    rcases List.mem_append.1 hmem with hmem | hmem
    · have hne := hfront _ hmem
      simp at hne
    · rcases List.mem_cons.1 hmem with hself | hmem
      · rw [← hself]
      · have hbefore := (List.pairwise_cons.1 (List.pairwise_append.1 hsorted).2.1).1 _ hmem
        rcases hbefore with hlt | ⟨-, hlt⟩
        · exact absurd hlt (UInt8.lt_irrefl _)
        · exact le_of_lt hlt
  refine ⟨hfirst, ?_⟩
  rintro ⟨rfl, hfind, hleast⟩
  obtain ⟨g, hg⟩ : ∃ g, ((t.forms m).find? fun g => g.1 = f.1) = some g := by
    rw [← Option.isSome_iff_exists, List.find?_isSome]
    exact ⟨f, mem_forms.2 hfind, by simp⟩
  obtain ⟨hop, hgfind, hgleast⟩ := hfirst hg
  -- each comes in front of the other
  have hranks : g.2.map OperandKind.rank = f.2.map OperandKind.rank :=
    le_antisymm (hgleast _ hfind) (hleast _ hgfind)
  have hkinds : g.2 = f.2 :=
    List.map_injective_iff.2 (fun _ _ => OperandKind.rank_injective) hranks
  rw [hg, Prod.ext hop hkinds]

/-- The signature is the first of an opcode: no mnemonic that was registered in front of its own has
the opcode, and no other operand kinds of its mnemonic that have it come in front of its own. -/
structure First (rows : List Signature) (op : Opcode) (m : Mnemonic) (ks : List OperandKind) :
    Prop where
  registered : (m, ks, op) ∈ rows
  mnemonic : ∃ front back, (rows.map Prod.fst).eraseDups = front ++ m :: back ∧
    ∀ n ∈ front, ∀ ls, (n, ls, op) ∉ rows
  kinds : ∀ ls, (m, ls, op) ∈ rows → ks.map OperandKind.rank ≤ ls.map OperandKind.rank

/-- **The signature that is found for an opcode is its first.** -/
theorem Maps.registration?_eq_some_iff (h : t.Maps rows) :
    t.registration? op = some (m, ks) ↔ First rows op m ks := by
  have hnone : ∀ n, ((t.forms n).find? fun f => f.1 = op).map (fun f => (n, f.2)) = none ↔
      ∀ ls, (n, ls, op) ∉ rows := by
    intro n
    rw [Option.map_eq_none_iff, List.find?_eq_none]
    constructor
    · intro hforms ls hls
      have hne := hforms (op, ls) (mem_forms.2 ((h.find?_eq_some_iff _ _ _).2 hls))
      simp at hne
    · intro hrows f hf hop
      obtain rfl : f.1 = op := of_decide_eq_true hop
      exact hrows f.2 ((h.find?_eq_some_iff _ _ _).1 (mem_forms.1 hf))
  have hsome : ∀ n, ((t.forms n).find? fun f => f.1 = op).map (fun f => (n, f.2)) = some (m, ks) ↔
      n = m ∧ (m, ks, op) ∈ rows ∧
        ∀ ls, (m, ls, op) ∈ rows → ks.map OperandKind.rank ≤ ls.map OperandKind.rank := by
    intro n
    simp only [Option.map_eq_some_iff, find?_forms_eq_some_iff, h.find?_eq_some_iff]
    constructor
    · rintro ⟨f, ⟨-, hmem, hleast⟩, heq⟩
      obtain ⟨rfl, rfl⟩ := Prod.mk.inj heq
      exact ⟨rfl, hmem, hleast⟩
    · rintro ⟨rfl, hmem, hleast⟩
      exact ⟨(op, ks), ⟨rfl, hmem, hleast⟩, rfl⟩
  rw [registration?, List.findSome?_eq_some_iff, h.mnemonics_eq]
  constructor
  · rintro ⟨front, n, back, heq, hn, hfront⟩
    obtain ⟨rfl, hmem, hleast⟩ := (hsome n).1 hn
    exact ⟨hmem, ⟨front, back, heq, fun n hn => (hnone n).1 (hfront n hn)⟩, hleast⟩
  · rintro ⟨hmem, ⟨front, back, heq, hfront⟩, hleast⟩
    exact ⟨front, m, back, heq, (hsome m).2 ⟨rfl, hmem, hleast⟩,
      fun n hn => (hnone n).2 (hfront n hn)⟩

/-- A tree answers for the opcodes that are registered, and for no others. -/
theorem Maps.isSome_registration?_iff (h : t.Maps rows) :
    (t.registration? op).isSome ↔ ∃ m ks, (m, ks, op) ∈ rows := by
  constructor
  · intro hsome
    obtain ⟨⟨m, ks⟩, hr⟩ := Option.isSome_iff_exists.1 hsome
    exact ⟨m, ks, (h.registration?_eq_some_iff.1 hr).registered⟩
  · rintro ⟨m, ks, hmem⟩
    exact isSome_registration? ((h.find?_eq_some_iff _ _ _).2 hmem)

/-- **From an opcode back to its first signature.**  For all calls from the empty tree on and every
opcode,
* the mnemonic and the operand kinds of the opcode are found if it is registered, and neither of them
  otherwise;
* the two that are found are those of the first signature of the opcode, however many it has, and
  this signature leads to the opcode;
* so they are those of its only signature, if it was registered once. -/
theorem first_signature_is_found (calls : List Call) (op : Opcode) :
    let s := Session.of calls
    ((s.tree.mnemonicOf? op).isSome ↔ ∃ m ks, (m, ks, op) ∈ s.registered) ∧
    ((s.tree.kindsOf? op).isSome ↔ ∃ m ks, (m, ks, op) ∈ s.registered) ∧
    (∀ m ks, s.tree.mnemonicOf? op = some m → s.tree.kindsOf? op = some ks →
      s.tree.find? m ks = some op ∧ First s.registered op m ks) ∧
    ∀ m ks, (s.registered.filter fun row => row.2.2 = op) = [(m, ks, op)] →
      s.tree.mnemonicOf? op = some m ∧ s.tree.kindsOf? op = some ks := by
  intro s
  have hmaps : s.tree.Maps s.registered := Session.maps_of calls
  rw [mnemonicOf?_eq, kindsOf?_eq, Option.isSome_map, Option.isSome_map,
    hmaps.isSome_registration?_iff]
  refine ⟨Iff.rfl, Iff.rfl, fun m ks hm hks => ?_, fun m ks honce => ?_⟩
  · obtain ⟨⟨n, ls⟩, hr, rfl⟩ := Option.map_eq_some_iff.1 hm
    rw [hr, Option.map_some, Option.some_inj] at hks
    subst hks
    exact ⟨find?_of_registration? hr, hmaps.registration?_eq_some_iff.1 hr⟩
  · have hmem : (m, ks, op) ∈ s.registered.filter fun row => row.2.2 = op := by
      rw [honce]
      exact List.mem_singleton_self _
    obtain ⟨⟨n, ls⟩, hr⟩ := Option.isSome_iff_exists.1
      (hmaps.isSome_registration?_iff.2 ⟨m, ks, (List.mem_filter.1 hmem).1⟩)
    -- what is found is registered for the opcode, and there is one such signature
    have hfound : (n, ls, op) ∈ s.registered.filter fun row => row.2.2 = op :=
      List.mem_filter.2 ⟨(hmaps.registration?_eq_some_iff.1 hr).registered, by simp⟩
    rw [honce, List.mem_singleton] at hfound
    cases hfound
    rw [hr]
    exact ⟨rfl, rfl⟩

/-- An opcode with four signatures of three mnemonics, one with a single signature, and one with
none. -/
theorem first_signature_is_found_among_four :
    let calls : List Call := [.add .cmp [] .b, .add .mov [.register, .literal] .halt,
      .add .add [] .halt, .add .mov [.memory] .halt, .add .cmp [.label] .halt,
      .add .mov [.register] .nop, .freeze, .add .nop [] .ldr]
    let s := Session.of calls
    s.tree.mnemonicOf? .halt = some .cmp ∧ s.tree.kindsOf? .halt = some [.label] ∧
    First s.registered .halt .cmp [.label] ∧ s.tree.find? .cmp [.label] = some .halt ∧
    s.tree.mnemonicOf? .nop = some .mov ∧ s.tree.kindsOf? .nop = some [.register] ∧
    (s.tree.mnemonicOf? .ldr).isSome = false ∧ (s.tree.kindsOf? .ldr).isSome = false := by
  intro calls s
  have hregistered : s.registered = [(.cmp, [], .b), (.mov, [.register, .literal], .halt),
      (.add, [], .halt), (.mov, [.memory], .halt), (.cmp, [.label], .halt),
      (.mov, [.register], .nop)] := by decide +kernel
  -- the first mnemonic has the opcode, for one list of kinds
  have hfirst : First s.registered .halt .cmp [.label] := by
    rw [hregistered]
    exact ⟨by decide, ⟨[], [.mov, .add], by decide, by simp⟩, by simp⟩
  have hr := (Session.maps_of calls).registration?_eq_some_iff.2 hfirst
  have hm : s.tree.mnemonicOf? .halt = some .cmp := by
    rw [mnemonicOf?_eq, hr]
    rfl
  have hks : s.tree.kindsOf? .halt = some [.label] := by
    rw [kindsOf?_eq, hr]
    rfl
  obtain ⟨-, -, hfound, -⟩ := first_signature_is_found calls .halt
  obtain ⟨-, -, -, honce⟩ := first_signature_is_found calls .nop
  obtain ⟨hmnemonic, hkinds, -, -⟩ := first_signature_is_found calls .ldr
  obtain ⟨hfind, -⟩ := hfound _ _ hm hks
  obtain ⟨hm', hks'⟩ := honce .mov [.register] (by rw [hregistered]; decide)
  have hnone : ¬ ∃ m ks, (m, ks, Opcode.ldr) ∈ s.registered := by
    rw [hregistered]
    simp
  exact ⟨hm, hks, hfirst, hfind, hm', hks', Bool.eq_false_iff.2 (mt hmnemonic.1 hnone),
    Bool.eq_false_iff.2 (mt hkinds.1 hnone)⟩

end Asm256.SignatureTree
