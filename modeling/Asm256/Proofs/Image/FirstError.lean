/-
The first statement without an encoding, by what is registered.

Statements are encoded one after the other, and the first that has no encoding
ends this with its error (`Image.encode_eq_error_iff`).  For a tree that calls
have made it can be said by the signatures that they have registered which
statements have an encoding (`Statement.Approved`), and what is wrong with one
that has none (`Statement.Rejected`); this is its error
(`Statement.encode_eq_error_iff_rejected`).

The main result is `first_rejected_statement_is_reported`.
-/
import Asm256.Proofs.Image.Layout
import Asm256.Proofs.Instruction.Sessions

namespace Asm256

open SignatureTree (Signature Session)

/-! ### Statements that are approved, and statements that are rejected -/

namespace Statement

variable {tree : SignatureTree} {rows : List Signature} {labels : LabelTable} {s : Statement}
  {e : StatementError}

/-- The signature of the statement is registered, and all its labels are defined. -/
structure Approved (rows : List Signature) (labels : LabelTable) (s : Statement) : Prop where
  signature : ∃ op, (s.mnemonic.value, s.kinds, op) ∈ rows
  labels : ∀ o ∈ s.operands, o.value.Resolves labels

/-- What is wrong with a statement that is not approved.  If its signature is not registered, then
whatever its labels are, that is the error, and it has the forms of the mnemonic that are, in order;
otherwise the error is that of the first operand whose label is not defined. -/
inductive Rejected (rows : List Signature) (labels : LabelTable) (s : Statement) :
    StatementError → Prop
  | signature {valid : List Form} (hnew : ∀ op, (s.mnemonic.value, s.kinds, op) ∉ rows)
      (hvalid : ∀ op ks, (op, ks) ∈ valid ↔ (s.mnemonic.value, ks, op) ∈ rows)
      (hsorted : valid.Pairwise Form.Before) :
      Rejected rows labels s
        (.invalidSignature s.mnemonic.pos s.mnemonic.value s.kinds valid)
  | label {before after : List (Spelled Operand)} {o : Spelled Operand}
      (hsignature : ∃ op, (s.mnemonic.value, s.kinds, op) ∈ rows)
      (heq : s.operands = before ++ o :: after) (hbefore : ∀ b ∈ before, b.value.Resolves labels)
      (hundefined : ¬ o.value.Resolves labels) : Rejected rows labels s (.undefinedLabel o.toToken)

theorem encodable_iff_approved (h : tree.Maps rows) :
    s.Encodable tree labels ↔ s.Approved rows labels := by
  rw [Encodable, h.isSome_find?_iff]
  constructor
  · rintro ⟨hsignature, hlabels⟩
    exact ⟨hsignature, hlabels⟩
  · rintro ⟨hsignature, hlabels⟩
    exact ⟨hsignature, hlabels⟩

/-- **The error of a statement is what is wrong with it.** -/
theorem encode_eq_error_iff_rejected (h : tree.Maps rows) :
    s.encode tree labels = .error e ↔ s.Rejected rows labels e := by
  have hnone : tree.find? s.mnemonic.value s.kinds = none ↔
      ∀ op, (s.mnemonic.value, s.kinds, op) ∉ rows := by
    rw [← Option.not_isSome_iff_eq_none, h.isSome_find?_iff, not_exists]
  rw [encode_eq_error_iff, hnone, h.isSome_find?_iff]
  constructor
  · rintro (⟨hnew, rfl⟩ | ⟨hsome, before, o, after, heq, hbefore, ho, rfl⟩)
    · obtain ⟨hvalid, hsorted⟩ := h.eq_forms_iff.1 (Eq.refl (tree.forms s.mnemonic.value))
      exact .signature hnew hvalid hsorted
    · exact .label hsome heq hbefore ho
  · rintro (⟨hnew, hvalid, hsorted⟩ | ⟨hsome, heq, hbefore, ho⟩)
    · rw [h.eq_forms_iff.2 ⟨hvalid, hsorted⟩]
      exact .inl ⟨hnew, rfl⟩
    · exact .inr ⟨hsome, _, _, _, heq, hbefore, ho, rfl⟩

end Statement

/-! ### The first error -/

/-- **Encoding fails at the first statement that is rejected**, with a truthful error.  For every
tree that calls can make, every label table and all statements that fit in memory,
* they have an image exactly if all of them are approved: signatures are registered, and labels are
  defined;
* otherwise the error is that of the first statement which is not approved: at its mnemonic if its
  signature is not registered, with the operand kinds that it has and the forms of the mnemonic that
  are registered, or else at its first label that is not defined;
* and the forms that such an error lists are others than the one received, and lead to their opcodes. -/
theorem first_rejected_statement_is_reported (calls : List SignatureTree.Call)
    (labels : LabelTable) {ss : List Statement} (hle : Statement.totalSize ss ≤ memorySize) :
    let s := Session.of calls
    ((∃ i, Image.encode s.tree labels ss = .ok i) ↔
      ∀ st ∈ ss, st.Approved s.registered labels) ∧
    (∀ e, Image.encode s.tree labels ss = .error e ↔ ∃ front st back e',
      ss = front ++ st :: back ∧ (∀ st ∈ front, st.Approved s.registered labels) ∧
        st.Rejected s.registered labels e' ∧ e = .statement e') ∧
    ∀ pos m received valid,
      Image.encode s.tree labels ss =
        .error (.statement (.invalidSignature pos m received valid)) →
      ∀ op ks, (op, ks) ∈ valid → ks ≠ received ∧ s.tree.find? m ks = some op := by
  intro s
  have hmaps : s.tree.Maps s.registered := SignatureTree.Session.maps_of calls
  have herror : ∀ e, Image.encode s.tree labels ss = .error e ↔ ∃ front st back e',
      ss = front ++ st :: back ∧ (∀ st ∈ front, st.Approved s.registered labels) ∧
        st.Rejected s.registered labels e' ∧ e = .statement e' := by
    intro e
    rw [Image.encode_eq_error_iff hle]
    simp only [Statement.encodable_iff_approved hmaps,
      Statement.encode_eq_error_iff_rejected hmaps]
  refine ⟨?_, herror, fun pos m received valid h op ks hform => ?_⟩
  · simp only [← Statement.encodable_iff_approved hmaps, Image.encode_eq_ok_iff]
    constructor
    · rintro ⟨i, he, -⟩
      exact he
    · intro he
      obtain ⟨i, hi⟩ := Image.exists_holds he hle
      exact ⟨i, he, hle, hi⟩
  · obtain ⟨front, st, back, e', -, -, hrejected, heq⟩ := (herror _).1 h
    obtain rfl := EncodeError.statement.inj heq
    obtain ⟨hnew, hvalid, -⟩ | _ := hrejected
    have hrow := (hvalid op ks).1 hform
    refine ⟨?_, (hmaps.find?_eq_some_iff _ _ _).2 hrow⟩
    rintro rfl
    exact hnew op hrow

/-- A move of a literal to a label that is not defined, and a branch there: each is reported in front
of the other, and the move for its signature. -/
theorem first_rejected_statement_is_reported_undefined :
    let calls : List SignatureTree.Call := [.add .mov [.register, .literal] .movLiteral,
      .add .b [.label] .b, .add .mov [.register, .register] .movRegister]
    let labels : LabelTable := [⟨"x", 2, ⟨1, 5⟩⟩]
    let back : Statement := ⟨⟨.b, "B", ⟨1, 1⟩⟩, [⟨.label "x", "x", ⟨1, 3⟩⟩]⟩
    let move : Statement :=
      ⟨⟨.mov, "MOV", ⟨2, 1⟩⟩, [⟨.literal 1, "#1", ⟨2, 5⟩⟩, ⟨.label "y", "y", ⟨2, 9⟩⟩]⟩
    let away : Statement := ⟨⟨.b, "B", ⟨3, 1⟩⟩, [⟨.label "y", "y", ⟨3, 3⟩⟩]⟩
    let t := (Session.of calls).tree
    (∃ i, Image.encode t labels [back, back] = .ok i) ∧
    Image.encode t labels [back, move, away] = .error (.statement
      (.invalidSignature ⟨2, 1⟩ .mov [.literal, .label]
        [(.movRegister, [.register, .register]), (.movLiteral, [.register, .literal])])) ∧
    Image.encode t labels [back, away, move] = .error (.statement
      (.undefinedLabel ⟨.operand (.label "y"), "y", ⟨3, 3⟩⟩)) ∧
    t.find? .mov [.register, .literal] = some .movLiteral := by
  intro calls labels back move away t
  have hregistered : (Session.of calls).registered = [(.mov, [.register, .literal], .movLiteral),
      (.b, [.label], .b), (.mov, [.register, .register], .movRegister)] := by decide +kernel
  have hback : back.Approved (Session.of calls).registered labels := by
    rw [hregistered]
    exact ⟨⟨.b, by decide⟩, by simp [back, labels, Operand.Resolves, LabelTable.find?]⟩
  have hmove : move.Rejected (Session.of calls).registered labels
      (.invalidSignature ⟨2, 1⟩ .mov [.literal, .label]
        [(.movRegister, [.register, .register]), (.movLiteral, [.register, .literal])]) := by
    rw [hregistered]
    refine .signature ?_ ?_ (by simp [Form.Before]; decide)
    · simp [move, Statement.kinds, Operand.kind]
    · intro op ks
      simp [move, or_comm, and_comm]
  have haway : away.Rejected (Session.of calls).registered labels
      (.undefinedLabel ⟨.operand (.label "y"), "y", ⟨3, 3⟩⟩) := by
    rw [hregistered]
    refine .label ?_ (show away.operands = [] ++ _ :: [] from rfl) (by simp) ?_
    · exact ⟨.b, by decide⟩
    · simp [labels, Operand.Resolves, LabelTable.find?]
  obtain ⟨hok, -, -⟩ := first_rejected_statement_is_reported calls labels
    (show Statement.totalSize [back, back] ≤ memorySize by decide)
  obtain ⟨-, hmoved, hlisted⟩ := first_rejected_statement_is_reported calls labels
    (show Statement.totalSize [back, move, away] ≤ memorySize by decide)
  obtain ⟨-, haways, -⟩ := first_rejected_statement_is_reported calls labels
    (show Statement.totalSize [back, away, move] ≤ memorySize by decide)
  have hreported := (hmoved _).2 ⟨[back], move, [away], _, rfl, by simpa using hback, hmove, rfl⟩
  exact ⟨hok.2 (by simpa using hback), hreported,
    (haways _).2 ⟨[back], away, [move], _, rfl, by simpa using hback, haway, rfl⟩,
    (hlisted _ _ _ _ hreported _ _ (by simp)).2⟩

end Asm256
