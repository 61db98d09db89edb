/-
Signature trees in memory under calls.

What a tree answers behind additions and calls that freeze it is a matter of the signatures that have
been registered, and of the room that there is for them:
* `NodeTree.Session.maps_of` — the tree is the map of the signatures that are registered;
* `NodeTree.Session.frozen_of_iff` — when it is frozen;
* `NodeTree.Session.add_of` — what an addition is answered;
* `NodeTree.Session.eq_signatureTree` — as long as there is room, the tree answers as the map that is
  a signature tree.

The main result is `NodeTree.map_of_registered_signatures`.
-/
import Asm256.Proofs.Instruction.NodeTrees

namespace Asm256

namespace NodeTree

open SignatureTree (putRoot mem_putRoot Signature Call)

variable {m : Mnemonic} {ks : List OperandKind} {op : Opcode} {room : Nat}

/-! ### Sequences of calls -/

/-- A tree, and the signatures that calls have registered, oldest first. -/
structure Session where
  tree : NodeTree := empty
  registered : List Signature := []

namespace Session

/-- The session behind one more call.  Only an addition without an error registers a signature. -/
def serve (room : Nat) (s : Session) : Call → Session
  | .add m ks op =>
      match s.tree.add m ks op with
      | (none, t) => ⟨t, s.registered ++ [(m, ks, op)]⟩
      | (some _, t) => ⟨t, s.registered⟩
  | .freeze => ⟨(s.tree.freeze room).2, s.registered⟩

/-- The session of calls from the empty tree on. -/
def of (room : Nat) (calls : List Call) : Session := calls.foldl (serve room) {}

variable {s : Session} {calls : List Call} {call : Call}

theorem of_concat (room : Nat) (calls : List Call) (call : Call) :
    of room (calls ++ [call]) = (of room calls).serve room call :=
  List.foldl_concat _ _ _ _

theorem of_append_cons (room : Nat) (calls more : List Call) (call : Call) :
    of room (calls ++ call :: more) = more.foldl (serve room) ((of room calls).serve room call) := by
  rw [of, List.foldl_append]
  rfl

/-- An addition that fails changes nothing. -/
theorem serve_add_of_isSome (h : (s.tree.add m ks op).1.isSome) :
    s.serve room (.add m ks op) = s := by
  have hadded := s.tree.added_add m ks op
  rw [serve]
  generalize s.tree.add m ks op = r at h hadded
  cases hadded with
  | frozen => rfl
  | duplicate => rfl
  | closed => rfl
  | added => cases h

/-- An addition that does not fail registers the signature, which is new to an open tree. -/
theorem serve_add_of_none (room : Nat) (h : (s.tree.add m ks op).1 = none) : s.tree.frozen = false ∧
    ∃ n, (s.tree.root m).Added ks op (none, n) ∧ s.serve room (.add m ks op) =
      ⟨{ s.tree with roots := putRoot m n s.tree.roots }, s.registered ++ [(m, ks, op)]⟩ := by
  have hadded := s.tree.added_add m ks op
  rw [serve]
  generalize s.tree.add m ks op = r at h hadded
  cases hadded with
  | frozen => cases h
  | duplicate => cases h
  | closed => cases h
  | added hopen hn => exact ⟨hopen, _, hn, rfl⟩

/-- A call keeps a tree the map of the signatures that are registered. -/
theorem maps_serve (h : s.tree.Maps s.registered) (call : Call) :
    (s.serve room call).tree.Maps (s.serve room call).registered := by
  cases call with
  | freeze => exact h.freeze room
  | add m ks op =>
    cases herror : (s.tree.add m ks op).1 with
    | some e => rwa [serve_add_of_isSome (by rw [herror]; rfl)]
    | none =>
      obtain ⟨-, n, hn, hserve⟩ := serve_add_of_none room herror
      rw [hserve]
      exact h.added hn

/-- **The tree is the map of the signatures that calls have registered**, whatever room there is. -/
theorem maps_of (room : Nat) (calls : List Call) :
    (of room calls).tree.Maps (of room calls).registered := by
  induction calls using List.reverseRecOn with
  | nil => exact maps_empty
  | append_singleton calls call ih =>
    rw [of_concat]
    exact maps_serve ih call

/-- One more call registers a signature if it is the addition of it and has no error. -/
theorem mem_registered_serve (s : Session) (call : Call) (m : Mnemonic) (ks : List OperandKind)
    (op : Opcode) : (m, ks, op) ∈ (s.serve room call).registered ↔
      (m, ks, op) ∈ s.registered ∨ (call = .add m ks op ∧ (s.tree.add m ks op).1 = none) := by
  cases call with
  | freeze => simp [serve]
  | add n ls op' =>
    cases herror : (s.tree.add n ls op').1 with
    | some e =>
      -- it registers nothing, for it has an error
      rw [serve_add_of_isSome (by rw [herror]; rfl)]
      refine (or_iff_left ?_).symm
      rintro ⟨⟨⟩, hnone⟩
      cases herror.symm.trans hnone
    | none =>
      obtain ⟨-, n, -, hserve⟩ := serve_add_of_none room herror
      rw [hserve, List.mem_append, List.mem_singleton]
      refine or_congr_right ⟨?_, ?_⟩
      · rintro ⟨⟩
        exact ⟨rfl, herror⟩
      · rintro ⟨⟨⟩, -⟩
        rfl

/-- **The signatures that are registered are those of the additions without an error.** -/
theorem mem_registered_iff (room : Nat) (calls : List Call) (m : Mnemonic) (ks : List OperandKind)
    (op : Opcode) : (m, ks, op) ∈ (of room calls).registered ↔
      ∃ before after, calls = before ++ Call.add m ks op :: after ∧
        ((of room before).tree.add m ks op).1 = none := by
  induction calls using List.reverseRecOn with
  | nil => simp [of]
  | append_singleton calls call ih =>
    rw [of_concat, mem_registered_serve, ih]
    constructor
    · rintro (⟨before, after, rfl, hnone⟩ | ⟨rfl, hnone⟩)
      · exact ⟨before, after ++ [call], by rw [List.append_assoc, List.cons_append], hnone⟩
      · exact ⟨calls, [], rfl, hnone⟩
    · rintro ⟨before, after, hsplit, hnone⟩
      -- the addition is the last call, or one in front of it
      rcases Statement.eq_or_exists_of_append_singleton hsplit with
        ⟨rfl, rfl, -⟩ | ⟨after, -, hsplit⟩
      · exact .inr ⟨rfl, hnone⟩
      · exact .inl ⟨before, after, hsplit, hnone⟩

/-- Signatures stay registered. -/
theorem fit_of_serve (h : Fit room (s.serve room call).registered) : Fit room s.registered :=
  fun m ks op hrow => h m ks op ((mem_registered_serve s call m ks op).2 (.inl hrow))

/-- **When a tree is frozen**: one of the calls was to freeze it, and there is room for all signatures,
which have been registered in front of that call. -/
theorem frozen_of_iff (room : Nat) (calls : List Call) : (of room calls).tree.frozen ↔
    .freeze ∈ calls ∧ Fit room (of room calls).registered := by
  induction calls using List.reverseRecOn with
  | nil => exact iff_of_false Bool.false_ne_true fun h => List.not_mem_nil h.1
  | append_singleton calls call ih =>
    rw [of_concat]
    cases call with
    | freeze =>
      have hmem : Call.freeze ∈ calls ++ [Call.freeze] := by simp
      by_cases hfit : Fit room (of room calls).registered
      · exact iff_of_true ((maps_of room calls).freeze_of_fit hfit).2 ⟨hmem, hfit⟩
      · refine iff_of_false ?_ fun h => hfit h.2
        show ¬ ((of room calls).tree.freeze room).2.frozen = true
        rw [((maps_of room calls).freeze_of_not_fit hfit).2, ih]
        exact fun h => hfit h.2
    | add m ks op =>
      have hmem : Call.freeze ∈ calls ++ [Call.add m ks op] ↔ .freeze ∈ calls := by simp
      rw [hmem]
      cases herror : ((of room calls).tree.add m ks op).1 with
      | some e =>
        rw [serve_add_of_isSome (by rw [herror]; rfl)]
        exact ih
      | none =>
        obtain ⟨hopen, n, -, hserve⟩ := serve_add_of_none room herror
        refine iff_of_false ?_ fun h => ?_
        · rw [hserve]
          exact Bool.eq_false_iff.1 hopen
        · rw [ih.2 ⟨h.1, fit_of_serve h.2⟩] at hopen
          cases hopen

/-- Nodes are closed by freezing only. -/
theorem openedRoots_of (h : .freeze ∉ calls) :
    (of room calls).tree.openedRoots = (of room calls).tree.roots := by
  induction calls using List.reverseRecOn with
  | nil => rfl
  | append_singleton calls call ih =>
    rw [List.mem_append, not_or, List.mem_singleton] at h
    rw [of_concat]
    cases call with
    | freeze => exact absurd rfl h.2
    | add m ks op =>
      cases herror : ((of room calls).tree.add m ks op).1 with
      | some e =>
        rw [serve_add_of_isSome (by rw [herror]; rfl)]
        exact ih h.1
      | none =>
        obtain ⟨-, n, hn, hserve⟩ := serve_add_of_none room herror
        rw [hserve]
        cases hn with
        | added hnew hfind hdistinct hdepth hopened =>
          have hroots := openedRoots_eq_iff.1 (ih h.1)
          refine openedRoots_eq_iff.2 fun p hp => ?_
          rcases mem_putRoot hp with rfl | hp
          · exact hopened (opened_root (ih h.1) m)
          · exact hroots p hp

/-- **The answer to an addition** depends on the calls in front of it, as long as there is room for the
signatures: an error if one of them was to freeze the tree, another one if the signature has an
opcode, and none otherwise. -/
theorem add_of (hfit : Fit room (of room calls).registered) (m : Mnemonic) (ks : List OperandKind)
    (op : Opcode) :
    (((of room calls).tree.add m ks op).1 = some (.refused .frozen) ↔ .freeze ∈ calls) ∧
    (((of room calls).tree.add m ks op).1 = some (.refused (.duplicate m ks)) ↔
      .freeze ∉ calls ∧ ∃ op', (m, ks, op') ∈ (of room calls).registered) ∧
    (((of room calls).tree.add m ks op).1 = none ↔
      .freeze ∉ calls ∧ ∀ op', (m, ks, op') ∉ (of room calls).registered) := by
  have hfrozen : (of room calls).tree.frozen = true ↔ .freeze ∈ calls :=
    (frozen_of_iff room calls).trans (and_iff_left hfit)
  have hfind := (maps_of room calls).find?_eq_some_iff m ks
  have hadded := (of room calls).tree.added_add m ks op
  simp only [← hfrozen, ← hfind]
  generalize (of room calls).tree.add m ks op = r at hadded
  cases hadded with
  | frozen h => simp [h]
  | duplicate hopen h => simp [hopen, h]
  | closed hopen h =>
    refine absurd (openedRoots_of fun hmem => ?_) h
    rw [hfrozen.2 hmem] at hopen
    cases hopen
  | added hopen hn =>
    cases hn with
    | added hnew hlookup hdistinct hdepth hopened =>
      have hnone : (of room calls).tree.find? m ks = none := hnew
      simp [hopen, hnone]

/-- As long as there is room, the same signatures are registered in a tree that is a map. -/
theorem registered_of_fit (hfit : Fit room (of room calls).registered) :
    (SignatureTree.Session.of calls).registered = (of room calls).registered := by
  induction calls using List.reverseRecOn with
  | nil => rfl
  | append_singleton calls call ih =>
    rw [of_concat] at hfit ⊢
    have hbefore := fit_of_serve hfit
    have hrows := ih hbefore
    rw [SignatureTree.Session.of_concat]
    cases call with
    | freeze => exact hrows
    | add m ks op =>
      have hnone := (add_of hbefore m ks op).2.2
      have hnone' := (SignatureTree.Session.addInPlace_of calls m ks op).2.2
      rw [hrows, ← hnone] at hnone'
      rcases (SignatureTree.Session.of calls).serve_add m ks op with
        ⟨herror, hserve⟩ | ⟨hnew, -, -, hserve⟩
      · have herror' : ((of room calls).tree.add m ks op).1.isSome := by
          rw [Option.isSome_iff_ne_none, Ne, ← hnone']
          exact Option.isSome_iff_ne_none.1 herror
        rw [hserve, serve_add_of_isSome herror', hrows]
      · obtain ⟨-, n, -, hserve'⟩ := serve_add_of_none room (hnone'.1 hnew)
        rw [hserve, hserve', hrows]

/-- **As long as there is room, a tree in memory is the map that is a signature tree.** -/
theorem eq_signatureTree (hfit : Fit room (of room calls).registered) :
    let t := (SignatureTree.Session.of calls).tree
    (of room calls).tree.find? = t.find? ∧ (of room calls).tree.mnemonics = t.mnemonics ∧
      (of room calls).tree.frozen = t.frozen ∧
      ∀ m, (of room calls).tree.forms room m = .ok (t.forms m) := by
  have hmaps := maps_of room calls
  have hmaps' := SignatureTree.Session.maps_of calls
  rw [registered_of_fit hfit] at hmaps'
  refine ⟨?_, by rw [hmaps.mnemonics_eq, hmaps'.mnemonics_eq], ?_, fun m => ?_⟩
  · funext m ks
    refine Option.ext fun op => ?_
    rw [hmaps.find?_eq_some_iff, hmaps'.find?_eq_some_iff]
  · rw [Bool.eq_iff_iff, frozen_of_iff, SignatureTree.Session.frozen_of_iff, and_iff_left hfit]
  · obtain ⟨fs, hforms, hmem, -, hsorted⟩ := hmaps.forms_of_fit (hfit m)
    rw [hforms, hmaps'.eq_forms_iff.2 ⟨hmem, hsorted⟩]

/-- A frozen tree stays frozen, and gives the same answers. -/
theorem openedRoots_foldl_serve (room : Nat) (h : s.tree.frozen = true) (calls : List Call) :
    (calls.foldl (serve room) s).tree.frozen = true ∧
      (calls.foldl (serve room) s).tree.openedRoots = s.tree.openedRoots := by
  induction calls generalizing s with
  | nil => exact ⟨h, rfl⟩
  | cons call calls ih =>
    have hserve : (s.serve room call).tree.frozen = true ∧
        (s.serve room call).tree.openedRoots = s.tree.openedRoots := by
      cases call with
      | freeze => exact ⟨frozen_freeze h, openedRoots_freeze room s.tree⟩
      | add m ks op =>
        cases herror : (s.tree.add m ks op).1 with
        | some e =>
          rw [serve_add_of_isSome (by rw [herror]; rfl)]
          exact ⟨h, rfl⟩
        | none =>
          obtain ⟨hopen, -⟩ := serve_add_of_none room herror
          cases h.symm.trans hopen
    obtain ⟨hfrozen, hroots⟩ := ih hserve.1
    exact ⟨hfrozen, hroots.trans hserve.2⟩

end Session

/-- **A tree under calls is the finite map of the signatures that they register.**  For all calls from
the empty tree on, with room for a number of calls inside each other,
* the signatures that are registered are those of the additions without an error; each has the opcode
  that was registered for it, and no other; the mnemonics are theirs, by their first signature;
* an addition that fails leaves everything as it is, for all calls behind it;
* to freeze the tree changes no answer, and it fails exactly if there is no room for a signature; the
  tree is frozen if one of the calls was to freeze it, and there was room;
* as long as there is room for the signatures, an addition fails behind a call that froze the tree, or
  else if the signature has an opcode, and registers the signature otherwise; and behind a call that
  freezes the tree no answer changes;
* if there is room for the signatures of a mnemonic, its forms are these, each once, sorted by the
  byte of the opcode and then by the order of kinds; otherwise they cannot be listed. -/
theorem map_of_registered_signatures (room : Nat) (calls : List Call) :
    let s := Session.of room calls
    (∀ m ks op, (m, ks, op) ∈ s.registered ↔ ∃ before after,
      calls = before ++ Call.add m ks op :: after ∧
        ((Session.of room before).tree.add m ks op).1 = none) ∧
    (∀ m ks op, s.tree.find? m ks = some op ↔ (m, ks, op) ∈ s.registered) ∧
    s.tree.mnemonics = (s.registered.map Prod.fst).eraseDups ∧
    (∀ m ks op more, (s.tree.add m ks op).1.isSome →
      Session.of room (calls ++ Call.add m ks op :: more) = Session.of room (calls ++ more)) ∧
    Alike (s.tree.freeze room).2 s.tree ∧
    ((s.tree.freeze room).1 = none ↔ Fit room s.registered) ∧
    (s.tree.frozen ↔ .freeze ∈ calls ∧ Fit room s.registered) ∧
    (Fit room s.registered → ∀ m ks op,
      ((s.tree.add m ks op).1 = some (.refused .frozen) ↔ .freeze ∈ calls) ∧
      ((s.tree.add m ks op).1 = some (.refused (.duplicate m ks)) ↔
        .freeze ∉ calls ∧ ∃ op', (m, ks, op') ∈ s.registered) ∧
      ((s.tree.add m ks op).1 = none ↔ .freeze ∉ calls ∧ ∀ op', (m, ks, op') ∉ s.registered)) ∧
    (Fit room s.registered → ∀ more,
      let t := (Session.of room (calls ++ Call.freeze :: more)).tree
      t.frozen ∧ Alike t s.tree) ∧
    ∀ room' m,
      ((∀ ks op, (m, ks, op) ∈ s.registered → ks.length ≤ room') →
        ∃ fs, s.tree.forms room' m = .ok fs ∧
          (∀ op ks, (op, ks) ∈ fs ↔ (m, ks, op) ∈ s.registered) ∧
          fs.Nodup ∧ fs.Pairwise Form.Before) ∧
      ((∃ ks op, (m, ks, op) ∈ s.registered ∧ room' < ks.length) →
        s.tree.forms room' m = .error .noRoom) := by
  intro s
  have hmaps : s.tree.Maps s.registered := Session.maps_of room calls
  refine ⟨Session.mem_registered_iff room calls, hmaps.find?_eq_some_iff, hmaps.mnemonics_eq,
    fun m ks op more herror => ?_, alike_freeze room s.tree, hmaps.freeze_fst_iff,
    Session.frozen_of_iff room calls, fun hfit => Session.add_of hfit, fun hfit more => ?_,
    fun room' m => ⟨hmaps.forms_of_fit, ?_⟩⟩
  · rw [Session.of_append_cons, Session.serve_add_of_isSome herror, Session.of, List.foldl_append]
    rfl
  · obtain ⟨hfrozen, hroots⟩ := Session.openedRoots_foldl_serve room
      (s := s.serve room .freeze) (hmaps.freeze_of_fit hfit).2 more
    intro t
    have htree : t = (more.foldl (Session.serve room) (s.serve room .freeze)).tree :=
      congrArg Session.tree (Session.of_append_cons room calls more .freeze)
    rw [htree]
    exact ⟨hfrozen, alike_of_openedRoots (hroots.trans (openedRoots_freeze room s.tree))⟩
  · rintro ⟨ks, op, hrow, hlt⟩
    exact hmaps.forms_of_not_fit fun hfit => absurd (hfit ks op hrow) (Nat.not_le.2 hlt)

/-- Two signatures of one mnemonic, one in front of the other, one that is added twice, and one for
which there is no room. -/
theorem map_of_registered_signatures_with_a_prefix :
    let calls : List Call := [.add .mov [.register, .literal] .movLiteral, .add .b [] .b,
      .add .mov [.register] .movRegister, .add .mov [.register] .halt]
    let s := Session.of 2 calls
    s.registered = [(.mov, [.register, .literal], .movLiteral), (.b, [], .b),
      (.mov, [.register], .movRegister)] ∧
    s.tree.find? .mov [.register] = some .movRegister ∧ s.tree.find? .mov [] = none ∧
    s.tree.mnemonics = [.mov, .b] ∧
    Session.of 2 (calls ++ [Call.add .mov [.register] .halt, Call.freeze]) =
      Session.of 2 (calls ++ [Call.freeze]) ∧
    (Session.of 2 (calls ++ [Call.freeze, Call.add .nop [] .nop])).tree.frozen ∧
    s.tree.forms 1 .mov = .error .noRoom ∧ s.tree.forms 1 .b = .ok [(.b, [])] := by
  intro calls s
  obtain ⟨-, hfind, hmnemonics, hfails, -, -, -, hanswer, hfreeze, hforms⟩ :=
    map_of_registered_signatures 2 calls
  have hregistered : s.registered = [(.mov, [.register, .literal], .movLiteral), (.b, [], .b),
      (.mov, [.register], .movRegister)] := by decide +kernel
  have hdone : (.mov, [.register], .movRegister) ∈ s.registered := by
    rw [hregistered]
    decide
  have hfit : Fit 2 s.registered := by
    have hrows : ∀ row ∈ s.registered, row.2.1.length ≤ 2 := by
      rw [hregistered]
      decide
    exact fun m ks op hrow => hrows _ hrow
  have hduplicate : (s.tree.add .mov [.register] .halt).1 =
      some (.refused (.duplicate .mov [.register])) :=
    (hanswer hfit _ _ _).2.1.2 ⟨by simp [calls], _, hdone⟩
  refine ⟨hregistered, (hfind _ _ _).2 hdone, ?_, ?_, ?_, (hfreeze hfit _).1, ?_, ?_⟩
  · refine Option.eq_none_iff_forall_ne_some.2 fun op hop => ?_
    have hmem := (hfind _ _ _).1 hop
    rw [hregistered] at hmem
    simp at hmem
  · rw [hmnemonics, hregistered]
    decide
  · exact hfails _ _ _ [.freeze] (by rw [hduplicate]; rfl)
  · refine (hforms 1 .mov).2 ⟨[.register, .literal], .movLiteral, ?_, by decide⟩
    rw [hregistered]
    decide
  · obtain ⟨fs, hfs, hmem, hnodup, -⟩ := (hforms 1 .b).1 fun ks op hrow => by
      rw [hregistered] at hrow
      simp at hrow
      simp [hrow]
    have hperm : fs.Perm [(.b, [])] := by
      refine (List.perm_ext_iff_of_nodup hnodup (List.nodup_singleton _)).2 fun f => ?_
      rw [hmem, hregistered]
      simp [Prod.ext_iff, and_comm]
    rw [hfs, List.perm_singleton.1 hperm]

/-- A signature of 1200 kinds, and room for 980 calls inside each other: the tree is not frozen, and
the forms are not listed. -/
theorem freeze_without_room :
    let ks := List.replicate 1200 OperandKind.label
    let s := Session.of 980 [.add .mov ks .movLiteral, .freeze]
    s.tree.find? .mov ks = some .movLiteral ∧ s.tree.frozen = false ∧
      (s.tree.freeze 980).1 = some .noRoom ∧ s.tree.forms 980 .mov = .error .noRoom ∧
      (s.tree.add .b [] .b).1 ≠ some (.refused .frozen) := by
  intro ks s
  have hmaps : s.tree.Maps s.registered := Session.maps_of 980 _
  have hempty : Fit 980 (Session.of 980 []).registered := fun _ _ _ hrow => absurd hrow List.not_mem_nil
  have hrow : (.mov, ks, .movLiteral) ∈ s.registered := by
    refine (Session.mem_registered_iff _ _ _ _ _).2 ⟨[], [.freeze], rfl, ?_⟩
    exact (Session.add_of hempty _ _ _).2.2.2 ⟨List.not_mem_nil, fun _ => List.not_mem_nil⟩
  have hlong : ¬ ks.length ≤ 980 := by
    rw [List.length_replicate]
    decide
  have hfit : ¬ Fit 980 s.registered := fun hfit => hlong (hfit _ _ _ hrow)
  have hopen : ¬ s.tree.frozen = true := fun hfrozen =>
    hfit ((Session.frozen_of_iff _ _).1 hfrozen).2
  refine ⟨(hmaps.find?_eq_some_iff _ _ _).2 hrow, Bool.eq_false_iff.2 hopen,
    (hmaps.freeze_of_not_fit hfit).1, hmaps.forms_of_not_fit fun hfit => hlong (hfit _ _ hrow), ?_⟩
  have hadded := s.tree.added_add .b [] .b
  generalize s.tree.add .b [] .b = r at hadded
  cases hadded with
  | frozen hfrozen => exact absurd hfrozen hopen
  | duplicate => exact nofun
  | closed => exact nofun
  | added => exact nofun

end NodeTree

end Asm256
