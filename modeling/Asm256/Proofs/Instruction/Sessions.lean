/-
Signature trees under calls.

A tree changes by additions and by freezing, one call after the other (`SignatureTree.Call`).  An
addition makes the nodes on its way before it looks at the end of it, and it may fail then
(`SignatureTree.addInPlace`); nothing is seen of these nodes:
* `SignatureTree.addInPlace_eq` — an addition in place is that of `SignatureTree.add`;
* `SignatureTree.Session.serve_add` — an addition changes nothing, or registers a new signature;
* `SignatureTree.Session.maps_serve` — so one call keeps a tree the map of the signatures that are
  registered;
* `SignatureTree.Session.maps_of` — and all calls from the empty tree on do;
* `SignatureTree.Maps.eq_forms_iff` — the forms of a mnemonic are those registered, sorted;
* `SignatureTree.Session.addInPlace_of` — what an addition is answered behind them.
-/
import Asm256.Proofs.Instruction.Registration

namespace Asm256

/-! ### Nodes on the way -/

namespace Trie

variable {t c d : Trie} {k l : OperandKind} {ks ls : List OperandKind} {op : Opcode}

/-- The trie with all nodes on the way along the kinds. -/
def walk (t : Trie) : List OperandKind → Trie
  | [] => node t.opcode (t.child .register) (t.child .memory) (t.child .label) (t.child .literal)
  | k :: ks => t.setChild k ((t.child k).walk ks)

theorem setChild_setChild (t : Trie) (k : OperandKind) (c d : Trie) :
    (t.setChild k c).setChild k d = t.setChild k d := by
  cases k <;> rfl

/-- The nodes on the way bind nothing. -/
theorem find?_walk (t : Trie) (ks ls : List OperandKind) : (t.walk ks).find? ls = t.find? ls := by
  induction ks generalizing t ls with
  | nil =>
    cases ls with
    | nil => rfl
    | cons l ls => cases l <;> rfl
  | cons k ks ih =>
    cases ls with
    | nil => exact opcode_setChild t k _
    | cons l ls =>
      -- only the branch of the first kind is another one
      rw [walk, find?, find?, child_setChild]
      split
      · next heq => rw [ih, heq]
      · rfl

/-- An insertion makes the nodes on its way anyhow. -/
theorem insert_walk (t : Trie) (ks : List OperandKind) (op : Opcode) :
    (t.walk ks).insert ks op = t.insert ks op := by
  induction ks generalizing t with
  | nil => rfl
  | cons k ks ih => rw [walk, insert, insert, child_setChild, if_pos rfl, ih, setChild_setChild]

/-- The nodes on the way to a binding are there. -/
theorem walk_eq_self (h : t.find? ks = some op) : t.walk ks = t := by
  induction ks generalizing t with
  | nil =>
    cases t with
    | empty => cases h
    | node o r m a l => rfl
  | cons k ks ih =>
    -- the branch stays, and is put where it was
    rw [walk, ih h]
    cases t with
    | empty =>
      rw [find?_empty] at h
      cases h
    | node o r m a l => cases k <;> rfl

/-! ### The bindings of a trie, once each -/

/-- The bindings of a branch are others than those of the branches in front of it. -/
theorem nodup_append_below {fs gs : List Form} (hg : gs.Nodup) (hf : fs.Nodup)
    (hnot : ∀ op ks, (op, k :: ks) ∉ gs) : (gs ++ forms.below k fs).Nodup := by
  have hbelow : (forms.below k fs).Nodup := by
    refine hf.map fun f g heq => ?_
    obtain ⟨hop, hks⟩ := Prod.mk.inj heq
    exact Prod.ext hop (List.cons.inj hks).2
  refine List.nodup_append.2 ⟨hg, hbelow, ?_⟩
  rintro g hmem f hf rfl
  obtain ⟨f, -, rfl⟩ := List.mem_map.1 hf
  exact hnot f.1 f.2 hmem

/-- **Every binding is listed once.** -/
theorem nodup_forms (t : Trie) : t.forms.Nodup := by
  induction t with
  | empty => exact .nil
  | node o r m a l ihr ihm iha ihl =>
    -- the kind in front tells the branches apart
    have hop : (o.map fun o => ((o, []) : Form)).toList.Nodup := by
      cases o <;> simp
    refine nodup_append_below (nodup_append_below (nodup_append_below (nodup_append_below hop
      ihr ?_) ihm ?_) iha ?_) ihl ?_ <;> simp [forms.below]

end Trie

/-! ### The order of forms -/

namespace Form

variable {f g : Form}

/-- The form stands in front: its byte is less, or its kinds come first for the same opcode. -/
def Before (f g : Form) : Prop :=
  f.1.toByte < g.1.toByte ∨ f.1 = g.1 ∧ f.2.map OperandKind.rank < g.2.map OperandKind.rank

theorem le_iff : Form.le f g ↔ f.key ≤ g.key := by
  rw [Form.le, Bool.not_eq_true', ← Bool.not_eq_true, List.lex_eq_true_iff_lt, not_lt]

theorem key_injective (h : f.key = g.key) : f = g := by
  obtain ⟨hbyte, hranks⟩ := List.cons.inj h
  refine Prod.ext (Opcode.toByte_injective (UInt8.toNat_inj.1 hbyte)) ?_
  exact List.map_injective_iff.2 (fun _ _ => OperandKind.rank_injective) hranks

theorem before_of_le (hle : Form.le f g) (hne : f ≠ g) : f.Before g := by
  have hlt : f.key < g.key := lt_of_le_of_ne (le_iff.1 hle) fun heq => hne (key_injective heq)
  rcases List.cons_lt_cons_iff.1 hlt with hbyte | ⟨hbyte, hranks⟩
  · exact .inl (UInt8.lt_iff_toNat_lt.2 hbyte)
  · exact .inr ⟨Opcode.toByte_injective (UInt8.toNat_inj.1 hbyte), hranks⟩

theorem Before.key_lt (h : f.Before g) : f.key < g.key := by
  rw [Form.key, Form.key, List.cons_lt_cons_iff]
  rcases h with hbyte | ⟨hop, hranks⟩
  · exact .inl (UInt8.lt_iff_toNat_lt.1 hbyte)
  · exact .inr ⟨by rw [hop], hranks⟩

/-- There is one sorted list of given forms. -/
theorem eq_of_pairwise_before {fs gs : List Form} (hf : fs.Pairwise Before)
    (hg : gs.Pairwise Before) (hmem : ∀ f, f ∈ fs ↔ f ∈ gs) : fs = gs := by
  have hne : ∀ {f g : Form}, f.Before g → f ≠ g := by
    intro f g h
    exact ne_of_apply_ne Form.key h.key_lt.ne
  have hperm : fs.Perm gs := (List.perm_ext_iff_of_nodup (hf.imp hne) (hg.imp hne)).2 hmem
  exact hperm.eq_of_pairwise
    (fun f g _ _ hfg hgf => absurd hgf.key_lt (lt_asymm hfg.key_lt)) hf hg

/-- Sorted lists of forms that are listed once each. -/
theorem pairwise_before {fs : List Form} (h : fs.Nodup) :
    (fs.mergeSort Form.le).Pairwise Before := by
  have htrans : ∀ f g h : Form, f.le g → g.le h → f.le h := by
    intro f g h hfg hgh
    exact le_iff.2 ((le_iff.1 hfg).trans (le_iff.1 hgh))
  have htotal : ∀ f g : Form, (f.le g || g.le f) := by
    intro f g
    rw [Bool.or_eq_true, le_iff, le_iff]
    exact le_total _ _
  have hnodup : (fs.mergeSort Form.le).Nodup := (List.mergeSort_perm fs Form.le).nodup_iff.2 h
  exact ((List.pairwise_mergeSort htrans htotal fs).and hnodup).imp fun h => before_of_le h.1 h.2

end Form

/-! ### Additions in place -/

namespace SignatureTree

variable {t : SignatureTree} {m n : Mnemonic} {ks ls : List OperandKind} {op : Opcode}

theorem putRoot_putRoot {α : Type} (m : Mnemonic) (r q : α) (ps : List (Mnemonic × α)) :
    putRoot m q (putRoot m r ps) = putRoot m q ps := by
  induction ps with
  | nil => simp [putRoot]
  | cons p ps ih => by_cases h : p.1 = m <;> simp [putRoot, h, ih]

theorem putRoot_eq_self {α : Type} {ps : List (Mnemonic × α)} {r : α} (h : ps.lookup m = some r) :
    putRoot m r ps = ps := by
  induction ps with
  | nil => cases h
  | cons p ps ih =>
    obtain ⟨k, q⟩ := p
    rw [List.lookup_cons] at h
    by_cases hk : k = m
    · subst hk
      rw [beq_self_eq_true] at h
      obtain rfl : q = r := Option.some.inj h
      exact if_pos rfl
    · rw [beq_eq_false_iff_ne.2 (Ne.symm hk)] at h
      rw [putRoot, if_neg hk, ih h]

/-- A mnemonic keeps its place, or comes last. -/
theorem map_fst_putRoot {α : Type} (m : Mnemonic) (r : α) (ps : List (Mnemonic × α)) :
    (putRoot m r ps).map Prod.fst =
      if m ∈ ps.map Prod.fst then ps.map Prod.fst else ps.map Prod.fst ++ [m] := by
  induction ps with
  | nil => rfl
  | cons p ps ih =>
    by_cases h : p.1 = m
    · simp [putRoot, h]
    · rw [putRoot, if_neg h, List.map_cons, ih]
      by_cases hmem : m ∈ ps.map Prod.fst <;> simp [hmem, Ne.symm h]

theorem mem_putRoot {α : Type} {r : α} {ps : List (Mnemonic × α)} {p : Mnemonic × α}
    (h : p ∈ putRoot m r ps) : p = (m, r) ∨ p ∈ ps := by
  induction ps with
  | nil => exact .inl (List.mem_singleton.1 h)
  | cons q ps ih =>
    rw [putRoot] at h
    split at h
    · exact (List.mem_cons.1 h).imp id (List.mem_cons_of_mem _)
    · rcases List.mem_cons.1 h with rfl | hmem
      · exact .inr List.mem_cons_self
      · exact (ih hmem).imp id (List.mem_cons_of_mem _)

/-- The tree with all nodes on the way to a signature. -/
def walk (t : SignatureTree) (m : Mnemonic) (ks : List OperandKind) : SignatureTree :=
  { t with roots := putRoot m ((t.root m).walk ks) t.roots }

/-- An addition as it is carried out, with its error and the tree that it leaves: the nodes on the
way are made first, and only then is it seen whether there is an opcode at the end. -/
def addInPlace (t : SignatureTree) (m : Mnemonic) (ks : List OperandKind) (op : Opcode) :
    Option AddError × SignatureTree :=
  if t.frozen then (some .frozen, t)
  else
    let walked := t.walk m ks
    if (walked.find? m ks).isSome then (some (.duplicate m ks), walked)
    else (none, walked.insert m ks op)

theorem root_walk (t : SignatureTree) (m : Mnemonic) (ks : List OperandKind) :
    (t.walk m ks).root m = (t.root m).walk ks := by
  simp [walk, root, lookup_putRoot]

/-- The nodes on the way to a signature are there. -/
theorem walk_eq_self (h : t.find? m ks = some op) : t.walk m ks = t := by
  have hroot : t.roots.lookup m = some (t.root m) := by
    rw [root]
    cases hlookup : t.roots.lookup m with
    | some r => rfl
    | none =>
      rw [find?, root, hlookup, Option.getD_none, Trie.find?_empty] at h
      cases h
  rw [walk, Trie.walk_eq_self h, putRoot_eq_self hroot]

theorem insert_walk (t : SignatureTree) (m : Mnemonic) (ks : List OperandKind) (op : Opcode) :
    (t.walk m ks).insert m ks op = t.insert m ks op := by
  rw [insert, root_walk, Trie.insert_walk]
  exact congrArg (SignatureTree.mk · t.frozen) (putRoot_putRoot _ _ _ _)

/-- **An addition in place is one of the whole tree**: the nodes it has made are not seen. -/
theorem addInPlace_eq (t : SignatureTree) (m : Mnemonic) (ks : List OperandKind) (op : Opcode) :
    t.addInPlace m ks op =
      match t.add m ks op with
      | .ok t' => (none, t')
      | .error e => (some e, t) := by
  have hfind : (t.walk m ks).find? m ks = t.find? m ks := by
    rw [find?, root_walk, Trie.find?_walk]
    rfl
  simp only [addInPlace, add, hfind]
  cases t.frozen with
  | true => rfl
  | false =>
    cases hfound : t.find? m ks with
    | some found =>
      rw [walk_eq_self hfound]
      rfl
    | none =>
      rw [insert_walk]
      rfl

/-! ### Trees as maps -/

/-- A list without repetitions, of a list with one more element. -/
theorem eraseDups_concat {α : Type} [DecidableEq α] (as : List α) (a : α) :
    (as ++ [a]).eraseDups = if a ∈ as then as.eraseDups else as.eraseDups ++ [a] := by
  rw [List.eraseDups_append]
  by_cases h : a ∈ as <;> simp [List.removeAll, List.eraseDups_cons, h]

/-- A signature: a mnemonic with operand kinds, and the opcode they choose. -/
abbrev Signature := Mnemonic × List OperandKind × Opcode

/-- The tree is the finite map of the signatures, in the order in which they were registered. -/
structure Maps (t : SignatureTree) (rows : List Signature) : Prop where
  find?_eq_some_iff : ∀ m ks op, t.find? m ks = some op ↔ (m, ks, op) ∈ rows
  mnemonics_eq : t.mnemonics = (rows.map Prod.fst).eraseDups

variable {rows : List Signature}

theorem maps_empty : empty.Maps [] where
  find?_eq_some_iff m ks op := by
    have hnone : empty.find? m ks = none := Trie.find?_empty ks
    simp [hnone]
  mnemonics_eq := rfl

/-- A new signature comes behind the others. -/
theorem Maps.insert (h : t.Maps rows) (hnew : t.find? m ks = none) (op : Opcode) :
    (t.insert m ks op).Maps (rows ++ [(m, ks, op)]) where
  find?_eq_some_iff n ls op' := by
    rw [find?_insert, List.mem_append, List.mem_singleton, ← h.find?_eq_some_iff]
    by_cases heq : n = m ∧ ls = ks
    · -- it had no opcode, so it has the new one only
      obtain ⟨rfl, rfl⟩ := heq
      simp [hnew, eq_comm]
    · rw [if_neg heq]
      have hne : (n, ls, op') ≠ (m, ks, op) := by
        rintro ⟨⟩
        exact heq ⟨rfl, rfl⟩
      simp [hne]
  mnemonics_eq := by
    have hfst : (t.insert m ks op).mnemonics =
        if m ∈ t.mnemonics then t.mnemonics else t.mnemonics ++ [m] := map_fst_putRoot _ _ _
    simp only [hfst, h.mnemonics_eq, List.map_append, List.map_cons, List.map_nil, eraseDups_concat,
      List.mem_eraseDups]

/-- The answer of a tree that is a map to an addition. -/
theorem Maps.isSome_find?_iff (h : t.Maps rows) :
    (t.find? m ks).isSome ↔ ∃ op, (m, ks, op) ∈ rows := by
  rw [Option.isSome_iff_exists]
  exact exists_congr fun op => h.find?_eq_some_iff m ks op

/-- **The forms of a mnemonic are the sorted list of those registered for it.** -/
theorem Maps.eq_forms_iff (h : t.Maps rows) {valid : List Form} : valid = t.forms m ↔
    (∀ op ks, (op, ks) ∈ valid ↔ (m, ks, op) ∈ rows) ∧ valid.Pairwise Form.Before := by
  have hmem : ∀ op ks, (op, ks) ∈ t.forms m ↔ (m, ks, op) ∈ rows := by
    intro op ks
    rw [mem_forms, h.find?_eq_some_iff]
  have hsorted : (t.forms m).Pairwise Form.Before := Form.pairwise_before (Trie.nodup_forms _)
  constructor
  · rintro rfl
    exact ⟨hmem, hsorted⟩
  · rintro ⟨hvalid, hpairwise⟩
    refine Form.eq_of_pairwise_before hpairwise hsorted ?_
    rintro ⟨op, ks⟩
    rw [hvalid, hmem]

/-! ### Sequences of calls -/

/-- A call that changes a tree. -/
inductive Call
  | add (m : Mnemonic) (ks : List OperandKind) (op : Opcode)
  | freeze

/-- A tree, and the signatures that calls have registered, oldest first. -/
structure Session where
  tree : SignatureTree := empty
  registered : List Signature := []

namespace Session

/-- The session behind one more call.  Only an addition without an error registers a signature. -/
def serve (s : Session) : Call → Session
  | .add m ks op =>
      match s.tree.addInPlace m ks op with
      | (none, t) => ⟨t, s.registered ++ [(m, ks, op)]⟩
      | (some _, t) => ⟨t, s.registered⟩
  | .freeze => ⟨s.tree.freeze, s.registered⟩

/-- The session of calls from the empty tree on. -/
def of (calls : List Call) : Session := calls.foldl serve {}

variable {s : Session} {calls : List Call} {call : Call}

theorem of_concat (calls : List Call) (call : Call) :
    of (calls ++ [call]) = (of calls).serve call :=
  List.foldl_concat _ _ _ _

/-- **What an addition does to a session**: it has an error and changes nothing, or the signature is
new to a tree that is not frozen, and is registered. -/
theorem serve_add (s : Session) (m : Mnemonic) (ks : List OperandKind) (op : Opcode) :
    ((s.tree.addInPlace m ks op).1.isSome ∧ s.serve (.add m ks op) = s) ∨
      ((s.tree.addInPlace m ks op).1 = none ∧ s.tree.frozen = false ∧ s.tree.find? m ks = none ∧
        s.serve (.add m ks op) = ⟨s.tree.insert m ks op, s.registered ++ [(m, ks, op)]⟩) := by
  rw [serve, addInPlace_eq, add]
  cases hfrozen : s.tree.frozen with
  | true => exact .inl ⟨rfl, rfl⟩
  | false =>
    cases hfind : s.tree.find? m ks with
    | some found => exact .inl ⟨rfl, rfl⟩
    | none => exact .inr ⟨rfl, rfl, rfl, rfl⟩

/-- The tree is frozen behind a call if it was, or if that is the call. -/
theorem frozen_serve (s : Session) (call : Call) :
    (s.serve call).tree.frozen ↔ s.tree.frozen ∨ call = .freeze := by
  cases call with
  | freeze => exact iff_of_true rfl (.inr rfl)
  | add m ks op =>
    rcases s.serve_add m ks op with ⟨-, hserve⟩ | ⟨-, -, -, hserve⟩ <;> simp [hserve, insert]

/-- A call keeps a tree the map of the signatures that are registered. -/
theorem maps_serve (h : s.tree.Maps s.registered) (call : Call) :
    (s.serve call).tree.Maps (s.serve call).registered := by
  cases call with
  | freeze => exact ⟨h.find?_eq_some_iff, h.mnemonics_eq⟩
  | add m ks op =>
    rcases s.serve_add m ks op with ⟨-, hserve⟩ | ⟨-, -, hnew, hserve⟩
    · rwa [hserve]
    · rw [hserve]
      exact h.insert hnew op

/-- **The tree is the map of the signatures that calls have registered.** -/
theorem maps_of (calls : List Call) : (of calls).tree.Maps (of calls).registered := by
  induction calls using List.reverseRecOn with
  | nil => exact maps_empty
  | append_singleton calls call ih =>
    rw [of_concat]
    exact maps_serve ih call

theorem frozen_of_iff (calls : List Call) : (of calls).tree.frozen ↔ .freeze ∈ calls := by
  induction calls using List.reverseRecOn with
  | nil => exact iff_of_false Bool.false_ne_true List.not_mem_nil
  | append_singleton calls call ih =>
    rw [of_concat, frozen_serve, ih, List.mem_append, List.mem_singleton, eq_comm]

/-- **The answer to an addition** depends on the calls in front of it: an error if one of them was
to freeze the tree, another one if the signature has an opcode, and none otherwise. -/
theorem addInPlace_of (calls : List Call) (m : Mnemonic) (ks : List OperandKind) (op : Opcode) :
    (((of calls).tree.addInPlace m ks op).1 = some .frozen ↔ .freeze ∈ calls) ∧
    (((of calls).tree.addInPlace m ks op).1 = some (.duplicate m ks) ↔
      .freeze ∉ calls ∧ ∃ op', (m, ks, op') ∈ (of calls).registered) ∧
    (((of calls).tree.addInPlace m ks op).1 = none ↔
      .freeze ∉ calls ∧ ∀ op', (m, ks, op') ∉ (of calls).registered) := by
  rw [← frozen_of_iff, ← not_exists, ← (maps_of calls).isSome_find?_iff, addInPlace_eq, add]
  cases (of calls).tree.frozen <;> cases (of calls).tree.find? m ks <;> simp

end Session

end SignatureTree

end Asm256
