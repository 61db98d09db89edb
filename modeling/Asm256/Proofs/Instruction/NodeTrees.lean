/-
Signature trees in memory.

An addition to a tree that fails leaves it as it is.  To freeze a tree closes its nodes, or some of
them if there is too little room, and nothing is seen of that but that additions fail behind them:
* `NodeTree.added_add` — what an addition comes to;
* `NodeTree.alike_freeze` — freezing a tree changes no answer;
* `NodeTree.Maps` — the tree is the finite map of signatures;
* `NodeTree.Maps.freeze_fst_iff`, `NodeTree.Maps.forms_of_fit` — a tree is frozen exactly if there is
  room for its signatures, and then its forms are listed.
-/
import Asm256.Proofs.Instruction.Nodes

namespace Asm256

namespace NodeTree

open SignatureTree (putRoot lookup_putRoot map_fst_putRoot mem_putRoot putRoot_eq_self Signature)

variable {t t' : NodeTree} {m : Mnemonic} {ks : List OperandKind} {op : Opcode} {room : Nat}

/-! ### Nodes that are closed -/

/-- The nodes of a tree, all of them open. -/
def openedRoots (t : NodeTree) : List (Mnemonic × Node) := t.roots.map (Prod.map id Node.opened)

theorem lookup_openedRoots (t : NodeTree) (m : Mnemonic) :
    t.openedRoots.lookup m = (t.roots.lookup m).map Node.opened := lookup_map_snd _ _ _

theorem openedRoots_eq_iff : t.openedRoots = t.roots ↔ ∀ p ∈ t.roots, p.2.opened = p.2 := by
  have hmap := @List.map_inj_left _ _ t.roots (Prod.map id Node.opened) id
  rw [List.map_id] at hmap
  exact hmap.trans (forall₂_congr fun p _ => ⟨fun h => congrArg Prod.snd h, fun h => Prod.ext rfl h⟩)

/-- Both trees answer alike, whatever room there is. -/
structure Alike (t t' : NodeTree) : Prop where
  find?_eq : t.find? = t'.find?
  mnemonics_eq : t.mnemonics = t'.mnemonics
  forms_eq : ∀ room, t.forms room = t'.forms room
  mnemonicOf?_eq : ∀ room, t.mnemonicOf? room = t'.mnemonicOf? room
  kindsOf?_eq : ∀ room, t.kindsOf? room = t'.kindsOf? room

theorem find?_eq_opened (t : NodeTree) (m : Mnemonic) (ks : List OperandKind) :
    t.find? m ks = ((t.openedRoots.lookup m).getD {}).find? ks := by
  rw [lookup_openedRoots, find?, root]
  cases t.roots.lookup m with
  | none => rfl
  | some n => exact (n.find?_opened ks).symm

theorem forms_eq_opened (t : NodeTree) (room : Nat) (m : Mnemonic) : t.forms room m =
    match t.openedRoots.lookup m with
    | none => .ok []
    | some n => (n.forms room).map (·.mergeSort Form.le) := by
  rw [lookup_openedRoots, forms]
  cases t.roots.lookup m with
  | none => rfl
  | some n => simp only [Option.map_some, n.forms_opened]

theorem mnemonics_eq_opened (t : NodeTree) : t.mnemonics = t.openedRoots.map Prod.fst := by
  rw [openedRoots, List.map_map]
  rfl

/-- **Which nodes are closed is not seen.** -/
theorem alike_of_openedRoots (h : t.openedRoots = t'.openedRoots) : Alike t t' := by
  have hmnemonics : t.mnemonics = t'.mnemonics := by
    rw [mnemonics_eq_opened, h, ← mnemonics_eq_opened]
  have hforms : ∀ room, t.forms room = t'.forms room := fun room => funext fun m => by
    rw [forms_eq_opened, h, ← forms_eq_opened]
  refine ⟨?_, hmnemonics, hforms, fun room => funext fun op => ?_, fun room => funext fun op => ?_⟩
  · funext m ks
    rw [find?_eq_opened, h, ← find?_eq_opened]
  · rw [mnemonicOf?, mnemonicOf?, hmnemonics, hforms]
  · rw [kindsOf?, kindsOf?, hmnemonics, hforms]

/-! ### Freezing -/

theorem closeRoots_cons (room : Nat) (m : Mnemonic) (n : Node) (ps : List (Mnemonic × Node)) :
    closeRoots room ((m, n) :: ps) =
      if (n.close room).1 then
        ((closeRoots room ps).1, (m, (n.close room).2) :: (closeRoots room ps).2)
      else (false, (m, (n.close room).2) :: ps) := by
  rw [closeRoots]
  rcases n.close room with ⟨_ | _, n⟩ <;> rfl

theorem map_opened_closeRoots (room : Nat) (ps : List (Mnemonic × Node)) :
    (closeRoots room ps).2.map (Prod.map id Node.opened) = ps.map (Prod.map id Node.opened) := by
  induction ps with
  | nil => rfl
  | cons p ps ih =>
    obtain ⟨m, n⟩ := p
    rw [closeRoots_cons]
    split <;> simp only [List.map_cons, Prod.map_apply, Node.opened_close, ih]

theorem closeRoots_fst_iff (room : Nat) (ps : List (Mnemonic × Node)) :
    (closeRoots room ps).1 = true ↔ ∀ p ∈ ps, p.2.branches.depth ≤ room := by
  induction ps with
  | nil => exact iff_of_true rfl fun _ h => absurd h List.not_mem_nil
  | cons p ps ih =>
    obtain ⟨m, n⟩ := p
    rw [closeRoots_cons, Node.close_fst, List.forall_mem_cons, ← ih]
    by_cases hnode : n.branches.depth ≤ room <;> simp [hnode]

theorem freeze_eq (room : Nat) (t : NodeTree) : t.freeze room =
    if (closeRoots room t.roots).1 then (none, ⟨(closeRoots room t.roots).2, true⟩)
    else (some .noRoom, ⟨(closeRoots room t.roots).2, t.frozen⟩) := by
  rw [freeze]
  rcases closeRoots room t.roots with ⟨_ | _, ps⟩ <;> rfl

theorem openedRoots_freeze (room : Nat) (t : NodeTree) :
    (t.freeze room).2.openedRoots = t.openedRoots := by
  have hroots := map_opened_closeRoots room t.roots
  rw [freeze_eq]
  split <;> exact hroots

theorem frozen_freeze (h : t.frozen = true) : (t.freeze room).2.frozen = true := by
  rw [freeze_eq]
  split
  · rfl
  · exact h

/-- **Freezing a tree changes no answer**, whether there is room for it or not. -/
theorem alike_freeze (room : Nat) (t : NodeTree) : Alike (t.freeze room).2 t :=
  alike_of_openedRoots (openedRoots_freeze room t)

/-! ### Additions -/

/-- What an addition to a tree comes to: the tree stays as it is, since it is frozen, the signature
has an opcode, or not all nodes are open, or the signature, which had none, gets the opcode. -/
inductive Added (t : NodeTree) (m : Mnemonic) (ks : List OperandKind) (op : Opcode) :
    Option AddError × NodeTree → Prop
  | frozen (h : t.frozen = true) : Added t m ks op (some (.refused .frozen), t)
  | duplicate {o : Opcode} (hopen : t.frozen = false) (h : t.find? m ks = some o) :
      Added t m ks op (some (.refused (.duplicate m ks)), t)
  | closed (hopen : t.frozen = false) (h : t.openedRoots ≠ t.roots) :
      Added t m ks op (some .closed, t)
  | added {n : Node} (hopen : t.frozen = false) (h : (t.root m).Added ks op (none, n)) :
      Added t m ks op (none, { t with roots := putRoot m n t.roots })

/-- A node that is not new is put where it is. -/
theorem putRoot_root (h : t.root m ≠ {}) : { t with roots := putRoot m (t.root m) t.roots } = t := by
  have hroot : t.roots.lookup m = some (t.root m) := by
    rw [root] at h ⊢
    cases hlookup : t.roots.lookup m with
    | some n => rfl
    | none =>
      rw [hlookup] at h
      exact absurd rfl h
  rw [putRoot_eq_self hroot]

theorem opened_root (h : t.openedRoots = t.roots) (m : Mnemonic) : (t.root m).opened = t.root m := by
  have hlookup := t.lookup_openedRoots m
  rw [h] at hlookup
  rw [root]
  cases hm : t.roots.lookup m with
  | none => rfl
  | some n =>
    rw [hm, Option.map_some] at hlookup
    exact (Option.some.inj hlookup).symm

/-- **What an addition comes to.** -/
theorem added_add (t : NodeTree) (m : Mnemonic) (ks : List OperandKind) (op : Opcode) :
    Added t m ks op (t.add m ks op) := by
  rw [add]
  by_cases hfrozen : t.frozen = true
  · rw [if_pos hfrozen]
    exact .frozen hfrozen
  · have hopen : t.frozen = false := Bool.eq_false_iff.2 hfrozen
    have hnode := (t.root m).added_add ks op
    rw [if_neg hfrozen]
    generalize (t.root m).add ks op = r at hnode
    cases hnode with
    | @taken o h =>
      have hnew : t.root m ≠ {} := by
        intro hnew
        rw [hnew, Node.find?_new] at h
        cases h
      show Added t m ks op (_, { t with roots := putRoot m (t.root m) t.roots })
      rw [putRoot_root hnew]
      exact .duplicate hopen h
    | closed h =>
      have hnew : t.root m ≠ {} := by
        intro hnew
        rw [hnew] at h
        exact h rfl
      show Added t m ks op (_, { t with roots := putRoot m (t.root m) t.roots })
      rw [putRoot_root hnew]
      exact .closed hopen fun hopened => h (opened_root hopened m)
    | added hnew hfind hdistinct hdepth hopened =>
      exact .added hopen (.added hnew hfind hdistinct hdepth hopened)

/-! ### Trees as maps -/

/-- The tree is the finite map of the signatures, in the order in which they were registered.  Its
nodes are told apart by their kinds, and no way is longer than the signatures. -/
structure Maps (t : NodeTree) (rows : List Signature) : Prop where
  find?_eq_some_iff : ∀ m ks op, t.find? m ks = some op ↔ (m, ks, op) ∈ rows
  mnemonics_eq : t.mnemonics = (rows.map Prod.fst).eraseDups
  distinct : ∀ p ∈ t.roots, p.2.branches.Distinct
  depth_le : ∀ p ∈ t.roots, ∀ d, (∀ ks op, (p.1, ks, op) ∈ rows → ks.length ≤ d) →
    p.2.branches.depth ≤ d

variable {rows : List Signature}

/-- A mnemonic has the new node, or a node of the tree. -/
theorem root_eq_or_mem (t : NodeTree) (m : Mnemonic) : t.root m = {} ∨ (m, t.root m) ∈ t.roots := by
  rw [root]
  cases hlookup : t.roots.lookup m with
  | none => exact .inl rfl
  | some n =>
    obtain ⟨front, back, hroots, -⟩ := List.lookup_eq_some_iff.1 hlookup
    rw [hroots]
    exact .inr (List.mem_append_right _ List.mem_cons_self)

theorem maps_empty : empty.Maps [] where
  find?_eq_some_iff m ks op := by
    have hnone : empty.find? m ks = none := Node.find?_new ks
    simp [hnone]
  mnemonics_eq := rfl
  distinct p hp := absurd hp List.not_mem_nil
  depth_le p hp := absurd hp List.not_mem_nil

theorem Maps.distinct_root (h : t.Maps rows) (m : Mnemonic) : (t.root m).branches.Distinct := by
  rcases t.root_eq_or_mem m with hnew | hmem
  · rw [hnew]
    exact trivial
  · exact h.distinct _ hmem

/-- **There is room for a mnemonic exactly if there is for its signatures.** -/
theorem Maps.depth_root_le_iff (h : t.Maps rows) (m : Mnemonic) (room : Nat) :
    (t.root m).branches.depth ≤ room ↔ ∀ ks op, (m, ks, op) ∈ rows → ks.length ≤ room := by
  constructor
  · intro hle ks op hrow
    exact (Node.length_le_depth ((h.find?_eq_some_iff _ _ _).2 hrow)).trans hle
  · intro hrows
    rcases t.root_eq_or_mem m with hnew | hmem
    · rw [hnew]
      exact Nat.zero_le _
    · exact h.depth_le _ hmem room hrows

/-- A new signature comes behind the others. -/
theorem Maps.added (h : t.Maps rows) {n : Node} (hn : (t.root m).Added ks op (none, n)) :
    ({ t with roots := putRoot m n t.roots } : NodeTree).Maps (rows ++ [(m, ks, op)]) := by
  cases hn with
  | added hnew hfind hdistinct hdepth hopened =>
    refine ⟨fun l ls op' => ?_, ?_, fun p hp => ?_, fun p hp d hd => ?_⟩
    · rw [find?, root, lookup_putRoot, List.mem_append, List.mem_singleton, ← h.find?_eq_some_iff]
      by_cases hl : l = m
      · subst hl
        rw [if_pos rfl, Option.getD_some, hfind]
        by_cases hls : ls = ks
        · -- it had no opcode, so it has the new one only
          subst hls
          have hnone : t.find? l ls = none := hnew
          simp [hnone, eq_comm]
        · have hne : (l, ls, op') ≠ (l, ks, op) := by
            rintro ⟨⟩
            exact hls rfl
          rw [if_neg hls, or_iff_left hne]
          rfl
      · have hne : (l, ls, op') ≠ (m, ks, op) := by
          rintro ⟨⟩
          exact hl rfl
        rw [if_neg hl, or_iff_left hne]
        rfl
    · have hfst : (putRoot m n t.roots).map Prod.fst =
          if m ∈ t.mnemonics then t.mnemonics else t.mnemonics ++ [m] := map_fst_putRoot _ _ _
      rw [mnemonics, hfst, h.mnemonics_eq]
      simp only [List.map_append, List.map_cons, List.map_nil, SignatureTree.eraseDups_concat,
        List.mem_eraseDups]
    · rcases mem_putRoot hp with rfl | hp
      · exact hdistinct (h.distinct_root m)
      · exact h.distinct p hp
    · have hrows : ∀ ls op', (p.1, ls, op') ∈ rows → ls.length ≤ d := fun ls op' hrow =>
        hd ls op' (List.mem_append_left _ hrow)
      rcases mem_putRoot hp with rfl | hp
      · have hks := hd ks op (List.mem_append_right _ (List.mem_singleton_self _))
        exact hdepth.trans (max_le hks ((h.depth_root_le_iff m d).2 hrows))
      · exact h.depth_le p hp d hrows

/-- Trees with the same nodes, closed or not, are maps of the same signatures. -/
theorem Maps.of_openedRoots (h : t.Maps rows) (heq : t'.openedRoots = t.openedRoots) :
    t'.Maps rows := by
  have hnode : ∀ p' ∈ t'.roots, ∃ p ∈ t.roots, p.1 = p'.1 ∧ p.2.opened = p'.2.opened := by
    intro p' hp'
    have hmem : Prod.map id Node.opened p' ∈ t.openedRoots := heq ▸ List.mem_map_of_mem hp'
    obtain ⟨p, hp, hmap⟩ := List.mem_map.1 hmem
    exact ⟨p, hp, Prod.mk.inj hmap⟩
  have halike := alike_of_openedRoots heq
  refine ⟨?_, ?_, fun p' hp' => ?_, fun p' hp' d hd => ?_⟩
  · rw [halike.find?_eq]
    exact h.find?_eq_some_iff
  · rw [halike.mnemonics_eq, h.mnemonics_eq]
  · obtain ⟨p, hp, -, hopened⟩ := hnode p' hp'
    have hbranches : p.2.branches.opened = p'.2.branches.opened := congrArg Node.branches hopened
    rw [← Branches.distinct_opened_iff, ← hbranches, Branches.distinct_opened_iff]
    exact h.distinct p hp
  · obtain ⟨p, hp, hm, hopened⟩ := hnode p' hp'
    have hbranches : p.2.branches.opened = p'.2.branches.opened := congrArg Node.branches hopened
    rw [← Branches.depth_opened, ← hbranches, Branches.depth_opened]
    exact h.depth_le p hp d (hm ▸ hd)

theorem Maps.freeze (h : t.Maps rows) (room : Nat) : (t.freeze room).2.Maps rows :=
  h.of_openedRoots (openedRoots_freeze room t)

/-- There is room for each of the signatures. -/
def Fit (room : Nat) (rows : List Signature) : Prop :=
  ∀ m ks op, (m, ks, op) ∈ rows → ks.length ≤ room

theorem Maps.closeRoots_fst_iff (h : t.Maps rows) :
    (closeRoots room t.roots).1 = true ↔ Fit room rows := by
  rw [NodeTree.closeRoots_fst_iff]
  constructor
  · intro hroots m ks op hrow
    have hfind := (h.find?_eq_some_iff m ks op).2 hrow
    rcases t.root_eq_or_mem m with hnew | hmem
    · rw [find?, hnew, Node.find?_new] at hfind
      cases hfind
    · exact (Node.length_le_depth hfind).trans (hroots _ hmem)
  · intro hfit p hp
    exact h.depth_le p hp room (hfit p.1)

/-- **A tree is frozen if there is room for its signatures.** -/
theorem Maps.freeze_of_fit (h : t.Maps rows) (hfit : Fit room rows) :
    (t.freeze room).1 = none ∧ (t.freeze room).2.frozen = true := by
  rw [freeze_eq, if_pos (h.closeRoots_fst_iff.2 hfit)]
  exact ⟨rfl, rfl⟩

/-- **A tree stays as open as it was if there is no room for one of its signatures.** -/
theorem Maps.freeze_of_not_fit (h : t.Maps rows) (hfit : ¬ Fit room rows) :
    (t.freeze room).1 = some .noRoom ∧ (t.freeze room).2.frozen = t.frozen := by
  rw [freeze_eq, if_neg (mt h.closeRoots_fst_iff.1 hfit)]
  exact ⟨rfl, rfl⟩

theorem Maps.freeze_fst_iff (h : t.Maps rows) : (t.freeze room).1 = none ↔ Fit room rows := by
  by_cases hfit : Fit room rows
  · exact iff_of_true (h.freeze_of_fit hfit).1 hfit
  · refine iff_of_false ?_ hfit
    rw [(h.freeze_of_not_fit hfit).1]
    exact nofun

theorem forms_eq_root (t : NodeTree) (room : Nat) (m : Mnemonic) :
    t.forms room m = ((t.root m).forms room).map (·.mergeSort Form.le) := by
  rw [forms, root]
  cases t.roots.lookup m with
  | some n => rfl
  | none =>
    show _ = Except.ok (([] : List Form).mergeSort Form.le)
    rw [List.mergeSort_nil]

/-- **The forms of a mnemonic**, if there is room for them: those registered, each once and sorted. -/
theorem Maps.forms_of_fit (h : t.Maps rows)
    (hfit : ∀ ks op, (m, ks, op) ∈ rows → ks.length ≤ room) : ∃ fs, t.forms room m = .ok fs ∧
      (∀ op ks, (op, ks) ∈ fs ↔ (m, ks, op) ∈ rows) ∧ fs.Nodup ∧ fs.Pairwise Form.Before := by
  have hdepth := (h.depth_root_le_iff m room).2 hfit
  have hdistinct := h.distinct_root m
  rw [forms_eq_root, Node.forms_eq, if_pos hdepth]
  refine ⟨_, rfl, fun op ks => ?_, ?_, Form.pairwise_before (Node.nodup_bindings hdistinct)⟩
  · rw [List.mem_mergeSort, Node.mem_bindings hdistinct, ← h.find?_eq_some_iff]
    rfl
  · exact (List.mergeSort_perm _ _).nodup_iff.2 (Node.nodup_bindings hdistinct)

theorem Maps.forms_of_not_fit (h : t.Maps rows)
    (hfit : ¬ ∀ ks op, (m, ks, op) ∈ rows → ks.length ≤ room) : t.forms room m = .error .noRoom := by
  have hdepth := mt (h.depth_root_le_iff m room).1 hfit
  rw [forms_eq_root, Node.forms_eq, if_neg hdepth]
  rfl

end NodeTree

end Asm256
