/-
Nodes of signature trees.

The nodes behind a node are a finite map from kinds, and a node one from lists of kinds to opcodes.
Which nodes are closed is not seen by looking things up or listing forms (`Branches.opened`), and there
is room for that, and for closing the nodes, exactly if there is room for the longest way behind the
node (`Branches.depth`):
* `Branches.close_fst`, `Branches.forms_eq` — when there is room, and the forms then;
* `Branches.opened_close` — closing does not do more than close nodes;
* `Branches.mem_bindings`, `Branches.nodup_bindings` — each binding is listed once;
* `Node.added_add` — what an addition comes to.
-/
import Asm256.Instruction.NodeTree
import Asm256.Proofs.Instruction.Sessions

namespace Asm256

/-- The nodes, all of them open. -/
def Branches.opened : Branches → Branches
  | nil => nil
  | cons k op _ behind others => cons k op false behind.opened others.opened

/-- The node and those behind it, all of them open. -/
def Node.opened (n : Node) : Node := { n with closed := false, branches := n.branches.opened }

namespace Branches

variable {b : Branches} {k l : OperandKind} {n : Node} {room : Nat}

/-! ### The map from kinds -/

theorem get?_put (b : Branches) (k l : OperandKind) (n : Node) :
    (b.put k n).get? l = if k = l then some n else b.get? l := by
  induction b with
  | nil => rfl
  | cons k' op closed behind others _ ih =>
    rw [put]
    split
    · next hk =>
      subst hk
      rw [get?, get?]
      split <;> rfl
    · next hk =>
      rw [get?, get?, ih]
      split
      · next hl => rw [if_neg fun heq => hk (hl.trans heq.symm)]
      · rfl

/-- A node that is put where it is changes nothing. -/
theorem put_eq_self (h : b.get? k = some n) : b.put k n = b := by
  induction b with
  | nil => cases h
  | cons k' op closed behind others _ ih =>
    rw [get?] at h
    rw [put]
    split at h
    · next hk =>
      subst hk
      cases h
      rw [if_pos rfl]
    · next hk => rw [if_neg hk, ih h]

/-! ### Ways behind a node -/

/-- The length of the longest way behind a node. -/
def depth : Branches → Nat
  | nil => 0
  | cons _ _ _ behind others => max (behind.depth + 1) others.depth

theorem depth_le_of_get? (h : b.get? k = some n) : n.branches.depth + 1 ≤ b.depth := by
  induction b with
  | nil => cases h
  | cons k' op closed behind others _ ih =>
    rw [get?] at h
    rw [depth]
    split at h
    · cases h
      exact le_max_left _ _
    · exact (ih h).trans (le_max_right _ _)

theorem depth_put_le (b : Branches) (k : OperandKind) (n : Node) :
    (b.put k n).depth ≤ max (n.branches.depth + 1) b.depth := by
  induction b with
  | nil => exact le_refl _
  | cons k' op closed behind others _ ih =>
    rw [put]
    split <;> simp only [depth] <;> omega

/-! ### Closing -/

theorem get?_opened (b : Branches) (k : OperandKind) :
    b.opened.get? k = (b.get? k).map Node.opened := by
  induction b with
  | nil => rfl
  | cons k' op closed behind others _ ih =>
    rw [opened, get?, get?, ih]
    split <;> rfl

theorem opened_put (b : Branches) (k : OperandKind) (n : Node) :
    (b.put k n).opened = b.opened.put k n.opened := by
  induction b with
  | nil => rfl
  | cons k' op closed behind others _ ih =>
    rw [put, opened, put]
    split
    · rfl
    · rw [opened, ih]

theorem close_cons (room : Nat) (k : OperandKind) (op : Option Opcode) (closed : Bool)
    (behind others : Branches) : (cons k op closed behind others).close (room + 1) =
      if (behind.close room).1 then
        ((others.close (room + 1)).1,
          cons k op true (behind.close room).2 (others.close (room + 1)).2)
      else (false, cons k op closed (behind.close room).2 others) := by
  rw [close]
  rcases behind.close room with ⟨_ | _, b⟩ <;> rfl

/-- **There is room for closing the nodes exactly if there is for the longest way.** -/
theorem close_fst (b : Branches) (room : Nat) : (b.close room).1 = decide (b.depth ≤ room) := by
  induction b generalizing room with
  | nil => rw [close, depth, decide_eq_true (Nat.zero_le _)]
  | cons k op closed behind others ihb iho =>
    cases room with
    | zero =>
      rw [close, depth, decide_eq_false]
      omega
    | succ room =>
      rw [close_cons, ihb, depth]
      by_cases hbehind : behind.depth ≤ room
      · rw [if_pos (decide_eq_true hbehind), iho, decide_eq_decide]
        omega
      · rw [if_neg (by simpa using hbehind), decide_eq_false]
        omega

/-- **Closing nodes does not do more than that.** -/
theorem opened_close (b : Branches) (room : Nat) : (b.close room).2.opened = b.opened := by
  induction b generalizing room with
  | nil => rw [close]
  | cons k op closed behind others ihb iho =>
    cases room with
    | zero => rw [close]
    | succ room =>
      rw [close_cons]
      split <;> simp only [opened, ihb, iho]

/-! ### Bindings -/

/-- The bindings of nodes. -/
def bindings : Branches → List Form
  | nil => []
  | cons k op _ behind others =>
      Trie.forms.below k ((op.map fun o => (o, [])).toList ++ behind.bindings) ++ others.bindings

/-- **There is room for listing the bindings exactly if there is for the longest way.** -/
theorem forms_eq (b : Branches) (room : Nat) :
    b.forms room = if b.depth ≤ room then .ok b.bindings else .error .noRoom := by
  induction b generalizing room with
  | nil => rw [forms, depth, if_pos (Nat.zero_le _), bindings]
  | cons k op closed behind others ihb iho =>
    cases room with
    | zero =>
      rw [forms, depth, if_neg]
      omega
    | succ room =>
      rw [forms, ihb, iho, depth, bindings]
      by_cases hbehind : behind.depth ≤ room
      · by_cases hothers : others.depth ≤ room + 1
        · rw [if_pos hbehind, if_pos hothers, if_pos (by omega)]
          rfl
        · rw [if_pos hbehind, if_neg hothers, if_neg (by omega)]
          rfl
      · rw [if_neg hbehind, if_neg (by omega : ¬ max (behind.depth + 1) others.depth ≤ room + 1)]
        rfl

theorem depth_opened (b : Branches) : b.opened.depth = b.depth := by
  induction b with
  | nil => rfl
  | cons k op closed behind others ihb iho => rw [opened, depth, depth, ihb, iho]

theorem bindings_opened (b : Branches) : b.opened.bindings = b.bindings := by
  induction b with
  | nil => rfl
  | cons k op closed behind others ihb iho => rw [opened, bindings, bindings, ihb, iho]

theorem forms_opened (b : Branches) (room : Nat) : b.opened.forms room = b.forms room := by
  rw [forms_eq, forms_eq, depth_opened, bindings_opened]

/-- No kind leads to two nodes. -/
def Distinct : Branches → Prop
  | nil => True
  | cons k _ _ behind others => others.get? k = none ∧ behind.Distinct ∧ others.Distinct

theorem distinct_opened_iff (b : Branches) : b.opened.Distinct ↔ b.Distinct := by
  induction b with
  | nil => rfl
  | cons k op closed behind others ihb iho =>
    rw [opened, Distinct, Distinct, ihb, iho, get?_opened, Option.map_eq_none_iff]

theorem Distinct.of_get? (h : b.Distinct) (hget : b.get? k = some n) : n.branches.Distinct := by
  induction b with
  | nil => cases hget
  | cons k' op closed behind others _ ih =>
    obtain ⟨-, hbehind, hothers⟩ := h
    rw [get?] at hget
    split at hget
    · cases hget
      exact hbehind
    · exact ih hothers hget

theorem Distinct.put (h : b.Distinct) (hn : n.branches.Distinct) (k : OperandKind) :
    (b.put k n).Distinct := by
  induction b with
  | nil => exact ⟨rfl, hn, trivial⟩
  | cons k' op closed behind others _ ih =>
    obtain ⟨hnew, hbehind, hothers⟩ := h
    rw [Branches.put]
    split
    · next hk =>
      subst hk
      exact ⟨hnew, hn, hothers⟩
    · next hk =>
      refine ⟨?_, hbehind, ih hothers⟩
      rw [get?_put, if_neg (Ne.symm hk), hnew]

end Branches

namespace Node

variable {n : Node} {k : OperandKind} {ks ls : List OperandKind} {op : Opcode}

/-! ### Nodes as maps -/

/-- The bindings of a node. -/
def bindings (n : Node) : List Form := (n.opcode.map fun o => (o, [])).toList ++ n.branches.bindings

theorem find?_cons (n : Node) (k : OperandKind) (ks : List OperandKind) :
    n.find? (k :: ks) = (n.branches.get? k).bind fun c => c.find? ks := rfl

/-- A new node binds nothing. -/
theorem find?_new (ks : List OperandKind) : ({} : Node).find? ks = none := by
  cases ks <;> rfl

theorem find?_child (n : Node) (k : OperandKind) (ks : List OperandKind) :
    (n.child k).find? ks = n.find? (k :: ks) := by
  rw [find?_cons, child]
  cases n.branches.get? k with
  | none => exact find?_new ks
  | some c => rfl

/-- A way to a binding is not longer than the longest. -/
theorem length_le_depth (h : n.find? ks = some op) : ks.length ≤ n.branches.depth := by
  induction ks generalizing n with
  | nil => exact Nat.zero_le _
  | cons k ks ih =>
    rw [find?_cons, Option.bind_eq_some_iff] at h
    obtain ⟨c, hc, hfind⟩ := h
    exact (Nat.succ_le_succ (ih hfind)).trans (Branches.depth_le_of_get? hc)

theorem mem_own_append {fs : List Form} (hfs : ∀ ks op, (op, ks) ∈ fs ↔
    ({ branches := n.branches } : Node).find? ks = some op) :
    (op, ks) ∈ (n.opcode.map fun o => (o, [])).toList ++ fs ↔ n.find? ks = some op := by
  rw [List.mem_append, hfs, Option.mem_toList, Option.map_eq_some_iff]
  cases ks with
  | nil =>
    have hnone : ({ branches := n.branches } : Node).find? [] ≠ some op := nofun
    rw [or_iff_left hnone, find?]
    simp
  | cons k ks => simp [find?_cons]

/-- What is bound behind a node has a kind in front. -/
theorem nodup_own_append (o : Option Opcode) {fs : List Form} (hfs : fs.Nodup)
    (hnot : ∀ op, (op, []) ∉ fs) : ((o.map fun o => ((o, []) : Form)).toList ++ fs).Nodup := by
  refine List.nodup_append.2 ⟨by cases o <;> simp, hfs, ?_⟩
  rintro f hf g hmem rfl
  rw [Option.mem_toList, Option.map_eq_some_iff] at hf
  obtain ⟨op, -, rfl⟩ := hf
  exact hnot op hmem

end Node

namespace Branches

variable {b : Branches} {op : Opcode} {ks : List OperandKind}

/-- **The bindings are what is found behind a node.** -/
theorem mem_bindings (h : b.Distinct) :
    (op, ks) ∈ b.bindings ↔ ({ branches := b } : Node).find? ks = some op := by
  induction b generalizing op ks with
  | nil => cases ks <;> simp [bindings, Node.find?, get?]
  | cons k o closed behind others ihb iho =>
    obtain ⟨hnew, hbehind, hothers⟩ := h
    have hown : ∀ ks op, (op, ks) ∈ (o.map fun o => (o, [])).toList ++ behind.bindings ↔
        (⟨o, closed, behind⟩ : Node).find? ks = some op := fun ks op =>
      Node.mem_own_append (n := ⟨o, closed, behind⟩) fun _ _ => ihb hbehind
    rw [bindings, List.mem_append, iho hothers, Trie.forms.below, List.mem_map]
    cases ks with
    | nil => simp [Node.find?]
    | cons l ks =>
      rw [Node.find?_cons, Node.find?_cons, get?]
      by_cases hk : k = l
      -- The kind of this node leads nowhere else, as no kind leads to two nodes.
      · subst hk
        rw [hnew, if_pos rfl]
        simp only [Prod.mk.injEq, List.cons.injEq, true_and, Option.bind_none, reduceCtorEq, or_false,
          Option.bind_some, Prod.exists]
        rw [← hown]
        constructor
        · rintro ⟨_, _, hmem, rfl, rfl⟩
          exact hmem
        · exact fun hmem => ⟨_, _, hmem, rfl, rfl⟩
      · rw [if_neg hk]
        refine or_iff_right ?_
        rintro ⟨f, -, heq⟩
        exact hk (List.cons.inj (Prod.mk.inj heq).2).1

/-- **Each binding is listed once.** -/
theorem nodup_bindings (h : b.Distinct) : b.bindings.Nodup := by
  induction b with
  | nil => exact .nil
  | cons k op closed behind others ihb iho =>
    obtain ⟨hnew, hbehind, hothers⟩ := h
    have hown := Node.nodup_own_append op (ihb hbehind) fun o hmem =>
      absurd ((mem_bindings hbehind).1 hmem) nofun
    rw [bindings]
    refine (List.perm_append_comm).nodup_iff.2 (Trie.nodup_append_below (iho hothers) hown ?_)
    intro op ks hmem
    rw [mem_bindings hothers, Node.find?_cons, hnew] at hmem
    cases hmem

end Branches

namespace Node

variable {n : Node} {k : OperandKind} {ks ls : List OperandKind} {op : Opcode}

theorem mem_bindings (h : n.branches.Distinct) : (op, ks) ∈ n.bindings ↔ n.find? ks = some op :=
  mem_own_append fun _ _ => Branches.mem_bindings h

theorem nodup_bindings (h : n.branches.Distinct) : n.bindings.Nodup :=
  nodup_own_append _ (Branches.nodup_bindings h) fun _ hmem =>
    absurd ((Branches.mem_bindings h).1 hmem) nofun

theorem forms_eq (n : Node) (room : Nat) :
    n.forms room = if n.branches.depth ≤ room then .ok n.bindings else .error .noRoom := by
  rw [forms, Branches.forms_eq]
  split <;> rfl

theorem forms_opened (n : Node) (room : Nat) : n.opened.forms room = n.forms room := by
  rw [forms, forms, opened, Branches.forms_opened]

theorem close_fst (n : Node) (room : Nat) :
    (n.close room).1 = decide (n.branches.depth ≤ room) := Branches.close_fst _ _

theorem opened_close (n : Node) (room : Nat) : (n.close room).2.opened = n.opened :=
  congrArg (Node.mk n.opcode false) (Branches.opened_close _ _)

theorem opened_eq_iff : n.opened = n ↔ n.closed = false ∧ n.branches.opened = n.branches := by
  obtain ⟨o, closed, b⟩ := n
  rw [opened, Node.mk.injEq]
  exact (and_iff_right rfl).trans (and_congr_left' eq_comm)

theorem find?_opened (n : Node) (ks : List OperandKind) : n.opened.find? ks = n.find? ks := by
  induction ks generalizing n with
  | nil => rfl
  | cons k ks ih =>
    rw [find?_cons, find?_cons, opened, Branches.get?_opened]
    cases n.branches.get? k with
    | none => rfl
    | some c => exact ih c

/-! ### Additions -/

/-- What an addition to a node comes to: the node stays as it is, since it has an opcode or not all
nodes are open, or the kinds, which were bound to nothing, are bound to the opcode. -/
inductive Added (n : Node) (ks : List OperandKind) (op : Opcode) : Option Obstacle × Node → Prop
  | taken {o : Opcode} (h : n.find? ks = some o) : Added n ks op (some .taken, n)
  | closed (h : n.opened ≠ n) : Added n ks op (some .closed, n)
  | added {n' : Node} (hnew : n.find? ks = none)
      (hfind : ∀ ls, n'.find? ls = if ls = ks then some op else n.find? ls)
      (hdistinct : n.branches.Distinct → n'.branches.Distinct)
      (hdepth : n'.branches.depth ≤ max ks.length n.branches.depth)
      (hopened : n.opened = n → n'.opened = n') : Added n ks op (none, n')

/-- The node that a kind leads to is there, and is put where it is. -/
theorem put_child (h : n.branches.get? k ≠ none) :
    { n with branches := n.branches.put k (n.child k) } = n := by
  obtain ⟨c, hc⟩ := Option.ne_none_iff_exists'.1 h
  rw [child, hc, Option.getD_some, Branches.put_eq_self hc]

theorem opened_child (h : n.opened = n) : (n.child k).opened = n.child k := by
  have hget : n.opened.branches.get? k = (n.branches.get? k).map opened := Branches.get?_opened _ _
  rw [h] at hget
  rw [child]
  cases hc : n.branches.get? k with
  | none => rfl
  | some c =>
    rw [hc, Option.map_some] at hget
    exact (Option.some.inj hget).symm

/-- A new node has nothing behind it, and the ways behind another one are shorter. -/
theorem depth_child (n : Node) (k : OperandKind) : (n.child k).branches.depth = 0 ∨
    (n.child k).branches.depth + 1 ≤ n.branches.depth := by
  rw [child]
  cases hc : n.branches.get? k with
  | none => exact .inl rfl
  | some c => exact .inr (Branches.depth_le_of_get? hc)

theorem distinct_child (h : n.branches.Distinct) : (n.child k).branches.Distinct := by
  rw [child]
  cases hc : n.branches.get? k with
  | none => exact trivial
  | some c => exact h.of_get? hc

/-- One step of an addition, to the node that the first kind leads to. -/
theorem Added.cons {r : Option Obstacle × Node} (h : Added (n.child k) ks op r) :
    Added n (k :: ks) op (r.1, { n with branches := n.branches.put k r.2 }) := by
  cases h with
  | @taken o hfind =>
    rw [find?_child] at hfind
    have hchild : n.branches.get? k ≠ none := by
      intro hnone
      rw [find?_cons, hnone] at hfind
      cases hfind
    rw [put_child hchild]
    exact .taken hfind
  | closed hclosed =>
    have hchild : n.branches.get? k ≠ none := by
      intro hnone
      refine hclosed ?_
      rw [child, hnone]
      rfl
    rw [put_child hchild]
    exact .closed fun hopened => hclosed (opened_child hopened)
  | @added c hnew hfind hdistinct hdepth hopened =>
    refine .added (by rw [← find?_child, hnew]) (fun ls => ?_)
      (fun h => h.put (hdistinct (distinct_child h)) k) ?_ fun h => ?_
    · cases ls with
      | nil => rfl
      | cons l ls =>
        rw [find?_cons, find?_cons, Branches.get?_put]
        by_cases hk : k = l
        · subst hk
          rw [if_pos rfl, Option.bind_some, hfind, find?_child]
          simp only [List.cons.injEq, true_and]
          rfl
        · rw [if_neg hk, if_neg fun heq => hk (List.cons.inj heq).1.symm]
    · have hput := Branches.depth_put_le n.branches k c
      have hchild := n.depth_child k
      rw [List.length_cons]
      show (n.branches.put k c).depth ≤ _
      omega
    · obtain ⟨hclosed, hbranches⟩ := opened_eq_iff.1 h
      refine opened_eq_iff.2 ⟨hclosed, ?_⟩
      show (n.branches.put k c).opened = _
      rw [Branches.opened_put, hbranches, hopened (opened_child h)]

/-- **What an addition comes to**, step by step on the way along the kinds. -/
theorem added_add (n : Node) (ks : List OperandKind) (op : Opcode) :
    Added n ks op (n.add ks op) := by
  induction ks generalizing n with
  | nil =>
    rw [add]
    cases ho : n.opcode with
    | some o => exact .taken ho
    | none =>
      refine .added ho (fun ls => ?_) id (le_max_right _ _) fun h => ?_
      · cases ls <;> rfl
      · obtain ⟨hclosed, hbranches⟩ := opened_eq_iff.1 h
        exact opened_eq_iff.2 ⟨hclosed, hbranches⟩
  | cons k ks ih =>
    rw [add]
    split
    · next hclosed =>
      refine .closed fun h => ?_
      have hopen : n.opened.closed = false := rfl
      rw [h, hclosed] at hopen
      cases hopen
    · exact (ih (n.child k)).cons

end Node

end Asm256
