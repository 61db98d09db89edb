/-
The layout of statements in memory.

A memory holds bytes when it starts with them and is zero behind them
(`Memory.Holds`).  A writer appends to what its memory holds, as long as there
is room; so an image holds the code of its statements, one after the other:
* `Statement.encode_eq_ok_iff` — when a statement has an encoding, and which;
* `Image.encode_eq_ok_iff` — statements have an image when each of them has an encoding and
  all of them fit in memory, and the image holds their code;
* `Image.encode_eq_error_iff` — statements that fit have none because of the first that has no
  encoding, and `Statement.encode_eq_error_iff` — why it has none.
-/
import Asm256.Image.Encoding
import Asm256.Proofs.Byte.Wrapping
import Asm256.Proofs.Source.Grammar

namespace Asm256

/-- The memory starts with the bytes and is zero behind them. -/
def Memory.Holds (m : Memory) (bs : List UInt8) : Prop :=
  m.toList = bs ++ List.replicate (memorySize - bs.length) 0

namespace Memory.Holds

variable {m : Memory} {bs : List UInt8} {address : Nat}

theorem getElem?_of_lt (h : m.Holds bs) (hlt : address < bs.length) :
    m[address]? = bs[address]? := by
  rw [← Vector.getElem?_toList, h, List.getElem?_append_left hlt]

theorem getElem?_of_le (h : m.Holds bs) (hle : bs.length ≤ address) (hlt : address < memorySize) :
    m[address]? = some 0 := by
  rw [← Vector.getElem?_toList, h, List.getElem?_append_right hle, List.getElem?_replicate,
    if_pos (by omega)]

end Memory.Holds

namespace Writer

variable {w w' : Writer} {bs : List UInt8} {values : List Int}

/-- What has been written: the memory holds it, and the cursor is behind it. -/
structure Wrote (w : Writer) (bs : List UInt8) : Prop where
  holds : Memory.Holds w.memory bs
  cursor_eq : w.cursor = bs.length

theorem wrote_empty : empty.Wrote [] := ⟨by simp [Memory.Holds, empty], rfl⟩

/-- A byte is appended to what has been written, if there is room. -/
theorem Wrote.write (h : w.Wrote bs) (hlt : bs.length < memorySize) (value : Int) :
    ∃ w', w.write value = some w' ∧ w'.Wrote (bs ++ [Byte.wrap value]) := by
  have hc : w.cursor < memorySize := by rw [h.cursor_eq]; exact hlt
  refine ⟨_, dif_pos hc, ?_, by simp [h.cursor_eq]⟩
  have hm := h.holds
  unfold Memory.Holds at hm ⊢
  rw [Vector.toList_set, hm, h.cursor_eq, List.length_append, List.length_singleton]
  -- the first zero behind the bytes is the one that is overwritten
  rw [show memorySize - bs.length = (memorySize - (bs.length + 1)) + 1 by omega,
    List.replicate_succ, List.set_append_right _ _ (Nat.le_refl _)]
  simp

theorem Wrote.write_eq_none (h : w.Wrote bs) (hle : memorySize ≤ bs.length) (value : Int) :
    w.write value = none := by
  rw [Writer.write, dif_neg]
  rw [h.cursor_eq]
  omega

theorem Wrote.writeAll (h : w.Wrote bs) (hle : bs.length + values.length ≤ memorySize) :
    ∃ w', w.writeAll values = some w' ∧ w'.Wrote (bs ++ values.map Byte.wrap) := by
  induction values generalizing w bs with
  | nil => exact ⟨w, rfl, by simpa using h⟩
  | cons v vs ih =>
    rw [List.length_cons] at hle
    obtain ⟨w₁, hw₁, h₁⟩ := h.write (by omega) v
    obtain ⟨w₂, hw₂, h₂⟩ := ih h₁ (by rw [List.length_append, List.length_singleton]; omega)
    refine ⟨w₂, ?_, by simpa using h₂⟩
    rw [Writer.writeAll, List.foldlM_cons, hw₁]
    exact hw₂

theorem Wrote.writeAll_eq_none (h : w.Wrote bs) (hlt : memorySize < bs.length + values.length)
    (hle : bs.length ≤ memorySize) : w.writeAll values = none := by
  induction values generalizing w bs with
  | nil =>
    rw [List.length_nil] at hlt
    omega
  | cons v vs ih =>
    rw [List.length_cons] at hlt
    rw [Writer.writeAll, List.foldlM_cons]
    -- the first number may still fit, but then not all the others
    by_cases hb : bs.length < memorySize
    · obtain ⟨w₁, hw₁, h₁⟩ := h.write hb v
      rw [hw₁]
      refine ih h₁ ?_ ?_ <;> rw [List.length_append, List.length_singleton] <;> omega
    · rw [h.write_eq_none (by omega) v]
      rfl

end Writer

/-! ### The code of a statement -/

theorem mapM_eq_ok_iff {α β ε : Type} {f : α → Except ε β} {as : List α} {bs : List β} :
    as.mapM f = .ok bs ↔ List.Forall₂ (fun a b => f a = .ok b) as bs := by
  induction as generalizing bs with
  | nil => simp [pure, Except.pure, eq_comm]
  | cons a as ih =>
    rw [List.mapM_cons, List.forall₂_cons_left_iff]
    cases ha : f a with
    | error e => simp [bind, Except.bind]
    | ok b =>
      cases has : as.mapM f with
      | error e =>
        have hn : ∀ bs, ¬ List.Forall₂ (fun a b => f a = .ok b) as bs := by
          intro bs h
          rw [ih.2 h] at has
          cases has
        simp [bind, Except.bind, hn]
      | ok bs' =>
        have hb : ∀ bs, List.Forall₂ (fun a b => f a = .ok b) as bs ↔ bs' = bs := by
          intro bs
          rw [← ih, has, Except.ok.injEq]
        simp [bind, Except.bind, pure, Except.pure, hb, eq_comm]

/-- **A map fails at the first element that fails**, with its error. -/
theorem mapM_eq_error_iff {α β ε : Type} {f : α → Except ε β} {as : List α} {e : ε} :
    as.mapM f = .error e ↔ ∃ front a back, as = front ++ a :: back ∧
      (∀ b ∈ front, ∃ v, f b = .ok v) ∧ f a = .error e := by
  induction as with
  | nil =>
    refine iff_of_false (fun h => by cases h) ?_
    rintro ⟨front, a, back, heq, -⟩
    simp at heq
  | cons a as ih =>
    rw [List.mapM_cons]
    constructor
    · intro h
      cases ha : f a with
      | error e' =>
        rw [ha] at h
        cases h
        exact ⟨[], a, as, rfl, by simp, ha⟩
      | ok v =>
        rw [ha] at h
        cases has : as.mapM f with
        | error e' =>
          rw [has] at h
          cases h
          obtain ⟨front, b, back, rfl, hfront, hb⟩ := ih.1 has
          refine ⟨a :: front, b, back, rfl, ?_, hb⟩
          exact List.forall_mem_cons.2 ⟨⟨v, ha⟩, hfront⟩
        | ok vs =>
          rw [has] at h
          cases h
    · rintro ⟨front, b, back, heq, hfront, hb⟩
      rcases front with _ | ⟨c, front⟩
      · obtain ⟨rfl, rfl⟩ := List.cons.inj heq
        rw [hb]
        rfl
      · obtain ⟨rfl, rfl⟩ := List.cons.inj heq
        rw [List.forall_mem_cons] at hfront
        obtain ⟨⟨v, hv⟩, hfront⟩ := hfront
        rw [hv, ih.2 ⟨front, b, back, rfl, hfront, hb⟩]
        rfl

namespace Operand

variable {labels : LabelTable} {o : Spelled Operand} {n : Int} {name : String} {l : Label}
  {e : StatementError}

theorem encode_of_label (h : o.value = .label name) (hl : labels.find? name = some l) :
    encode labels o = .ok l.address := by
  unfold encode
  rw [h]
  simp [hl]

theorem encode_undefined (h : o.value = .label name) (hl : labels.find? name = none) :
    encode labels o = .error (.undefinedLabel o.toToken) := by
  unfold encode
  rw [h]
  simp [hl]

/-- The operand has a number of its own or names a label of the table. -/
def Resolves (labels : LabelTable) (o : Operand) : Prop :=
  ∀ name, o = .label name → ∃ l, labels.find? name = some l

/-- The number that an operand stands for. -/
def resolve (labels : LabelTable) : Operand → Int
  | .register n | .memory n | .literal n => n
  | .label name => ((labels.find? name).map Label.address).getD 0

theorem encode_eq_ok_iff : encode labels o = .ok n ↔
    o.value.Resolves labels ∧ n = o.value.resolve labels := by
  obtain ⟨value, lexeme, pos⟩ := o
  cases value with
  | label name =>
    cases hl : labels.find? name with
    | none =>
      rw [encode_undefined rfl hl]
      simp [Resolves, hl]
    | some l =>
      rw [encode_of_label rfl hl]
      simp [Resolves, resolve, hl, eq_comm]
  | _ => simp [encode, Resolves, resolve, eq_comm]

theorem not_resolves_iff {o : Operand} :
    ¬ o.Resolves labels ↔ ∃ name, o = .label name ∧ labels.find? name = none := by
  simp only [Resolves, ← Option.isSome_iff_exists, not_forall, Option.not_isSome_iff_eq_none,
    exists_prop]

/-- An operand has no number if its label is not defined. -/
theorem encode_eq_error_iff : encode labels o = .error e ↔
    ¬ o.value.Resolves labels ∧ e = .undefinedLabel o.toToken := by
  cases hencode : encode labels o with
  | ok n =>
    have hresolves := (encode_eq_ok_iff.1 hencode).1
    simp [hresolves]
  | error e' =>
    have hnot : ¬ o.value.Resolves labels := by
      intro hresolves
      rw [encode_eq_ok_iff.2 ⟨hresolves, rfl⟩] at hencode
      cases hencode
    obtain ⟨name, hname, hnone⟩ := not_resolves_iff.1 hnot
    rw [encode_undefined hname hnone, Except.error.injEq] at hencode
    rw [Except.error.injEq, ← hencode, eq_comm]
    exact (and_iff_right hnot).symm

end Operand

namespace Statement

variable {tree : SignatureTree} {labels : LabelTable} {s : Statement} {values : List Int}
  {e : StatementError}

/-- The statement has an encoding: a form fits, and its labels are defined. -/
def Encodable (tree : SignatureTree) (labels : LabelTable) (s : Statement) : Prop :=
  (tree.find? s.mnemonic.value s.kinds).isSome ∧ ∀ o ∈ s.operands, o.value.Resolves labels

/-- The bytes of a statement: its opcode and what its operands stand for. -/
def code (tree : SignatureTree) (labels : LabelTable) (s : Statement) : List UInt8 :=
  (tree.find? s.mnemonic.value s.kinds).toList.map Opcode.toByte
    ++ s.operands.map fun o => Byte.wrap (o.value.resolve labels)

theorem Encodable.code_eq {op : Opcode} (h : tree.find? s.mnemonic.value s.kinds = some op) :
    s.code tree labels
      = op.toByte :: s.operands.map fun o => Byte.wrap (o.value.resolve labels) := by
  simp [code, h]

theorem Encodable.length_code (h : s.Encodable tree labels) :
    (s.code tree labels).length = s.size := by
  obtain ⟨op, hop⟩ := Option.isSome_iff_exists.1 h.1
  rw [Encodable.code_eq hop, List.length_cons, List.length_map, size, Nat.add_comm]

theorem forall₂_encode_iff {os : List (Spelled Operand)} :
    List.Forall₂ (fun o n => Operand.encode labels o = .ok n) os values ↔
      (∀ o ∈ os, o.value.Resolves labels) ∧ values = os.map fun o => o.value.resolve labels := by
  induction os generalizing values with
  | nil => simp
  | cons o os ih =>
    rw [List.forall₂_cons_left_iff]
    constructor
    · rintro ⟨n, ns, hn, hns, rfl⟩
      obtain ⟨hr, rfl⟩ := Operand.encode_eq_ok_iff.1 hn
      obtain ⟨hrs, rfl⟩ := ih.1 hns
      exact ⟨by simpa using ⟨hr, hrs⟩, rfl⟩
    · rintro ⟨hr, rfl⟩
      rw [List.forall_mem_cons] at hr
      exact ⟨_, _, Operand.encode_eq_ok_iff.2 ⟨hr.1, rfl⟩, ih.2 ⟨hr.2, rfl⟩, rfl⟩

theorem encode_eq_ok_iff : s.encode tree labels = .ok values ↔
    ∃ op, tree.find? s.mnemonic.value s.kinds = some op ∧
      (∀ o ∈ s.operands, o.value.Resolves labels) ∧
      values = (op.toByte.toNat : Int) :: s.operands.map fun o => o.value.resolve labels := by
  unfold encode
  cases hop : tree.find? s.mnemonic.value s.kinds with
  | none => simp [hop]
  | some op =>
    simp only [hop, Option.some.injEq, exists_eq_left']
    cases hm : s.operands.mapM (Operand.encode labels) with
    | error e =>
      have hn : ¬ ∀ o ∈ s.operands, o.value.Resolves labels := by
        intro h
        rw [mapM_eq_ok_iff.2 (forall₂_encode_iff.2 ⟨h, rfl⟩)] at hm
        cases hm
      simp [hn]
    | ok ns =>
      obtain ⟨hr, rfl⟩ := forall₂_encode_iff.1 (mapM_eq_ok_iff.1 hm)
      constructor
      · intro h
        cases h
        exact ⟨hr, rfl⟩
      · rintro ⟨-, rfl⟩
        rfl

/-- The numbers of an encoding are written as the code of the statement. -/
theorem map_wrap_of_encode (h : s.encode tree labels = .ok values) :
    s.Encodable tree labels ∧ values.map Byte.wrap = s.code tree labels := by
  obtain ⟨op, hop, hr, rfl⟩ := encode_eq_ok_iff.1 h
  refine ⟨⟨by simp [hop], hr⟩, ?_⟩
  rw [Encodable.code_eq hop, List.map_cons, Byte.wrap_toNat, List.map_map]
  rfl

theorem length_of_encode (h : s.encode tree labels = .ok values) : values.length = s.size := by
  obtain ⟨he, hcode⟩ := map_wrap_of_encode h
  rw [← List.length_map (f := Byte.wrap), hcode, he.length_code]

theorem Encodable.encode (h : s.Encodable tree labels) :
    ∃ values, s.encode tree labels = .ok values := by
  obtain ⟨op, hop⟩ := Option.isSome_iff_exists.1 h.1
  exact ⟨_, encode_eq_ok_iff.2 ⟨op, hop, h.2, rfl⟩⟩

/-- **Why a statement has no encoding**: no form fits, whatever its labels, or else the first label
that is not defined. -/
theorem encode_eq_error_iff : s.encode tree labels = .error e ↔
    (tree.find? s.mnemonic.value s.kinds = none ∧
      e = .invalidSignature s.mnemonic.pos s.mnemonic.value s.kinds
        (tree.forms s.mnemonic.value)) ∨
    ((tree.find? s.mnemonic.value s.kinds).isSome ∧ ∃ before o after,
      s.operands = before ++ o :: after ∧ (∀ b ∈ before, b.value.Resolves labels) ∧
        ¬ o.value.Resolves labels ∧ e = .undefinedLabel o.toToken) := by
  unfold encode
  cases hop : tree.find? s.mnemonic.value s.kinds with
  | none => simp [hop, eq_comm]
  | some op =>
    have hvalues : ∀ b : Spelled Operand, (∃ v, Operand.encode labels b = .ok v) ↔
        b.value.Resolves labels := by
      intro b
      simp only [Operand.encode_eq_ok_iff, exists_and_left, exists_eq, and_true]
    have herror : s.operands.mapM (Operand.encode labels) = .error e ↔ ∃ before o after,
        s.operands = before ++ o :: after ∧ (∀ b ∈ before, b.value.Resolves labels) ∧
          ¬ o.value.Resolves labels ∧ e = .undefinedLabel o.toToken := by
      rw [mapM_eq_error_iff]
      simp only [hvalues, Operand.encode_eq_error_iff]
    simp only [hop, reduceCtorEq, false_and, false_or, Option.isSome_some, true_and]
    rw [← herror]
    cases s.operands.mapM (Operand.encode labels) <;> simp

/-- The code of statements, one after the other. -/
def codeOf (tree : SignatureTree) (labels : LabelTable) (ss : List Statement) : List UInt8 :=
  ss.flatMap (code tree labels)

@[simp] theorem codeOf_nil : codeOf tree labels [] = [] := rfl

@[simp] theorem codeOf_cons (s : Statement) (ss : List Statement) :
    codeOf tree labels (s :: ss) = s.code tree labels ++ codeOf tree labels ss := rfl

@[simp] theorem codeOf_append (ss ss' : List Statement) :
    codeOf tree labels (ss ++ ss') = codeOf tree labels ss ++ codeOf tree labels ss' := by
  simp [codeOf]

theorem length_codeOf {ss : List Statement} (h : ∀ s ∈ ss, s.Encodable tree labels) :
    (codeOf tree labels ss).length = totalSize ss := by
  induction ss with
  | nil => rfl
  | cons s ss ih =>
    rw [List.forall_mem_cons] at h
    rw [codeOf_cons, List.length_append, h.1.length_code, ih h.2, totalSize_cons]

end Statement

/-! ### The image of statements -/

namespace Writer

variable {tree : SignatureTree} {labels : LabelTable} {w w' : Writer} {bs : List UInt8}
  {s : Statement} {ss : List Statement} {e : EncodeError}

/-- Statements that fit are written behind what has been written. -/
theorem Wrote.writeStatements (h : w.Wrote bs) (he : ∀ s ∈ ss, s.Encodable tree labels)
    (hle : bs.length + Statement.totalSize ss ≤ memorySize) :
    ∃ w', ss.foldlM (writeStatement tree labels) w = .ok w' ∧
      w'.Wrote (bs ++ Statement.codeOf tree labels ss) := by
  induction ss generalizing w bs with
  | nil => exact ⟨w, rfl, by simpa using h⟩
  | cons s ss ih =>
    rw [List.forall_mem_cons] at he
    rw [Statement.totalSize_cons] at hle
    obtain ⟨values, hv⟩ := he.1.encode
    obtain ⟨-, hcode⟩ := Statement.map_wrap_of_encode hv
    have hlen := Statement.length_of_encode hv
    obtain ⟨w₁, hw₁, h₁⟩ := @Writer.Wrote.writeAll w bs values h (by omega)
    rw [hcode] at h₁
    obtain ⟨w₂, hw₂, h₂⟩ := ih h₁ he.2 (by
      rw [List.length_append, he.1.length_code]
      omega)
    refine ⟨w₂, ?_, by simpa using h₂⟩
    rw [List.foldlM_cons, writeStatement, hv]
    simp only [hw₁]
    exact hw₂

/-- Statements that are written have encodings and fit. -/
theorem Wrote.of_writeStatements (h : w.Wrote bs) (hbs : bs.length ≤ memorySize)
    (hw : ss.foldlM (writeStatement tree labels) w = .ok w') :
    (∀ s ∈ ss, s.Encodable tree labels) ∧ bs.length + Statement.totalSize ss ≤ memorySize := by
  induction ss generalizing w bs with
  | nil => simpa using hbs
  | cons s ss ih =>
    rw [List.foldlM_cons, writeStatement] at hw
    cases hv : s.encode tree labels with
    | error e =>
      rw [hv] at hw
      cases hw
    | ok values =>
      obtain ⟨he, -⟩ := Statement.map_wrap_of_encode hv
      have hlen := Statement.length_of_encode hv
      -- a statement that does not fit is not written, so it was no part of what was written
      by_cases hle : bs.length + values.length ≤ memorySize
      · obtain ⟨w₁, hw₁, h₁⟩ := h.writeAll hle
        rw [hv] at hw
        simp only [hw₁] at hw
        have hlen₁ : (bs ++ values.map Byte.wrap).length = bs.length + s.size := by
          rw [List.length_append, List.length_map, hlen]
        obtain ⟨hes, hsize⟩ := ih h₁ (by omega) hw
        rw [hlen₁] at hsize
        refine ⟨List.forall_mem_cons.2 ⟨he, hes⟩, ?_⟩
        rw [Statement.totalSize_cons]
        omega
      · rw [hv] at hw
        have hnone := h.writeAll_eq_none (Nat.lt_of_not_le hle) hbs
        simp only [hnone] at hw
        cases hw

/-- **Writing statements that fit fails at the first that has no encoding.** -/
theorem Wrote.writeStatements_eq_error_iff (h : w.Wrote bs)
    (hle : bs.length + Statement.totalSize ss ≤ memorySize) :
    ss.foldlM (writeStatement tree labels) w = .error e ↔ ∃ front s back e',
      ss = front ++ s :: back ∧ (∀ s ∈ front, s.Encodable tree labels) ∧
        s.encode tree labels = .error e' ∧ e = .statement e' := by
  induction ss generalizing w bs with
  | nil =>
    refine iff_of_false (fun h => by cases h) ?_
    rintro ⟨front, s, back, e', heq, -⟩
    simp at heq
  | cons s ss ih =>
    rw [Statement.totalSize_cons] at hle
    rw [List.foldlM_cons, writeStatement]
    cases hv : s.encode tree labels with
    | error e' =>
      constructor
      · intro herror
        cases herror
        exact ⟨[], s, ss, e', rfl, by simp, hv, rfl⟩
      · rintro ⟨front, s', back, e'', heq, hfront, hs', rfl⟩
        rcases front with _ | ⟨f, front⟩
        · obtain ⟨rfl, rfl⟩ := List.cons.inj heq
          cases hv.symm.trans hs'
          rfl
        · -- the statement would have an encoding
          obtain ⟨rfl, rfl⟩ := List.cons.inj heq
          obtain ⟨values, hvalues⟩ := (hfront s List.mem_cons_self).encode
          cases hv.symm.trans hvalues
    | ok values =>
      obtain ⟨he, -⟩ := Statement.map_wrap_of_encode hv
      have hlen := Statement.length_of_encode hv
      obtain ⟨w₁, hw₁, h₁⟩ := @Writer.Wrote.writeAll w bs values h (by omega)
      have hroom : (bs ++ values.map Byte.wrap).length + Statement.totalSize ss ≤ memorySize := by
        rw [List.length_append, List.length_map]
        omega
      simp only [hw₁]
      show ss.foldlM (writeStatement tree labels) w₁ = .error e ↔ _
      rw [ih h₁ hroom]
      constructor
      · rintro ⟨front, s', back, e', rfl, hfront, hs', rfl⟩
        exact ⟨s :: front, s', back, e', rfl, List.forall_mem_cons.2 ⟨he, hfront⟩, hs', rfl⟩
      · rintro ⟨front, s', back, e', heq, hfront, hs', rfl⟩
        rcases front with _ | ⟨f, front⟩
        · obtain ⟨rfl, rfl⟩ := List.cons.inj heq
          cases hv.symm.trans hs'
        · obtain ⟨rfl, rfl⟩ := List.cons.inj heq
          exact ⟨front, s', back, e', rfl, (List.forall_mem_cons.1 hfront).2, hs', rfl⟩

end Writer

/-- The image of a writer holds what has been written. -/
theorem Writer.Wrote.image {w : Writer} {bs : List UInt8} (h : w.Wrote bs) :
    Memory.Holds w.image.memory bs ∧ w.image.codeSize = bs.length :=
  ⟨h.holds, h.cursor_eq⟩

namespace Image

variable {tree : SignatureTree} {labels : LabelTable} {ss : List Statement} {i j : Image}

/-- The image is that of the bytes: its memory holds them, and they are its code. -/
structure Holds (i : Image) (bs : List UInt8) : Prop where
  memory : Memory.Holds i.memory bs
  codeSize : i.codeSize = bs.length

theorem Holds.code {bs : List UInt8} (h : i.Holds bs) : i.code = bs := by
  rw [Image.code, h.memory, h.codeSize, List.take_left]

/-- The memory behind the code is zero. -/
theorem Holds.getElem_behind {bs : List UInt8} (h : i.Holds bs) {address : Nat}
    (hle : i.codeSize ≤ address) (hlt : address < memorySize) : i.memory[address] = 0 := by
  have hzero := h.memory.getElem?_of_le (by rwa [← h.codeSize]) hlt
  simpa [hlt] using hzero

/-- There is one image of given bytes. -/
theorem Holds.eq {bs : List UInt8} (hi : i.Holds bs) (hj : j.Holds bs) : i = j := by
  obtain ⟨mi, ci, hci⟩ := i
  obtain ⟨mj, cj, hcj⟩ := j
  obtain rfl : mi = mj := Vector.toList_inj.1 (hi.memory.trans hj.memory.symm)
  obtain rfl : ci = cj := hi.codeSize.trans hj.codeSize.symm
  rfl

/-- Statements that have encodings and fit have an image. -/
theorem exists_holds (he : ∀ s ∈ ss, s.Encodable tree labels)
    (hle : Statement.totalSize ss ≤ memorySize) :
    ∃ i : Image, i.Holds (Statement.codeOf tree labels ss) := by
  obtain ⟨w, -, h⟩ := Writer.wrote_empty.writeStatements he (by simpa using hle)
  exact ⟨w.image, h.image.1, h.image.2⟩

/-- **Statements have an image when each has an encoding and all fit in memory**, and it holds
their code. -/
theorem encode_eq_ok_iff : Image.encode tree labels ss = .ok i ↔
    (∀ s ∈ ss, s.Encodable tree labels) ∧ Statement.totalSize ss ≤ memorySize ∧
      i.Holds (Statement.codeOf tree labels ss) := by
  unfold Image.encode
  constructor
  · intro h
    cases hf : ss.foldlM (Writer.writeStatement tree labels) .empty with
    | error e =>
      rw [hf] at h
      cases h
    | ok w =>
      rw [hf] at h
      cases h
      obtain ⟨he, hle⟩ := Writer.wrote_empty.of_writeStatements (by simp) hf
      rw [List.length_nil, Nat.zero_add] at hle
      obtain ⟨w', hw', h'⟩ := Writer.wrote_empty.writeStatements he (by simpa using hle)
      rw [hf] at hw'
      cases hw'
      rw [List.nil_append] at h'
      exact ⟨he, hle, h'.image.1, h'.image.2⟩
  · rintro ⟨he, hle, hi⟩
    obtain ⟨w, hw, h⟩ := Writer.wrote_empty.writeStatements he (by simpa using hle)
    rw [List.nil_append] at h
    rw [hw, hi.eq ⟨h.image.1, h.image.2⟩]
    rfl

/-- **Statements that fit have no image because of the first that has no encoding**, with its
error. -/
theorem encode_eq_error_iff {e : EncodeError} (hle : Statement.totalSize ss ≤ memorySize) :
    Image.encode tree labels ss = .error e ↔ ∃ front s back e', ss = front ++ s :: back ∧
      (∀ s ∈ front, s.Encodable tree labels) ∧ s.encode tree labels = .error e' ∧
        e = .statement e' := by
  have hfits : ([] : List UInt8).length + Statement.totalSize ss ≤ memorySize := by
    rwa [List.length_nil, Nat.zero_add]
  rw [← Writer.wrote_empty.writeStatements_eq_error_iff hfits, Image.encode]
  cases ss.foldlM (Writer.writeStatement tree labels) .empty <;> simp [Except.map]

end Image

end Asm256
