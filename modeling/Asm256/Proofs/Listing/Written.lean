/-
How the operands of listings are written.

The byte of an operand is written as a word that is read as the operand again
(`OperandKind.Names.spelling`): numbers in decimal, and addresses by the label
that is made from them.  These labels are names, and different addresses have
different ones (`Item.labelName_labelName`, `labelName_injective`).  Only a byte
that is no register cannot be written as one (`OperandKind.refused_written`).
-/
import Asm256.Listing
import Asm256.Proofs.Source.Reading
import Asm256.Proofs.Source.Tokens

namespace Asm256

/-! ### Numerals -/

/-- The decimal numeral of a byte denotes it. -/
theorem Item.numeral_toString {n : Nat} (h : n < 256) : Numeral (toString n).toList n := by
  rw [Nat.toString_eq_repr, Nat.toList_repr]
  refine ⟨Nat.toDigits_ne_nil, fun c hc => ?_, ?_, ?_, h⟩
  · have hdigit := Nat.isDigit_of_mem_toDigits (by decide) (by decide) hc
    rw [Char.isDigit, Bool.and_eq_true, decide_eq_true_eq, decide_eq_true_eq] at hdigit
    exact Decimal.isDigit_iff.2 hdigit
  · have hlen : (Nat.toDigits 10 n).length ≤ 3 :=
      (Nat.length_toDigits_le_iff (by decide) (by decide)).2 (by omega)
    exact hlen.trans (by decide)
  · have hvalue := @Nat.ofDigitChars_ten_toDigits n
    rwa [Nat.ofDigitChars_eq_foldl] at hvalue

/-! ### Labels made from addresses -/

theorem toList_labelName (n : Nat) : (labelName n).toList = 'L' :: '_' :: letters n [] := by
  simp [labelName]

theorem toNat_letter : ∀ n < 26, (Char.ofNat ('a'.toNat + n)).toNat = 0x61 + n := by decide

/-- The number whose digits in base 26 are letters, behind the digits of `k`. -/
def ofLetters (k : Nat) (cs : List Char) : Nat := cs.foldl (fun k c => 26 * k + (c.toNat - 0x61)) k

/-- The letters for a number are its digits. -/
theorem ofLetters_letters (n : Nat) (tail : List Char) :
    ofLetters 0 (letters n tail) = ofLetters n tail := by
  fun_induction letters n tail with
  | case1 n tail more hlt =>
    rw [ofLetters, List.foldl_cons, toNat_letter _ (Nat.mod_lt _ (by decide))]
    simp [ofLetters, Nat.mod_eq_of_lt hlt]
  | case2 n tail more hge ih =>
    have hdigits : 26 * (n / 26) + n % 26 = n := Nat.div_add_mod n 26
    rw [ih, ofLetters, List.foldl_cons, toNat_letter _ (Nat.mod_lt _ (by decide)),
      Nat.add_sub_cancel_left, hdigits]
    rfl

/-- Different addresses have different labels. -/
theorem labelName_injective : Function.Injective labelName := by
  intro m n h
  have hlist := congrArg String.toList h
  rw [toList_labelName, toList_labelName, List.cons_inj_right, List.cons_inj_right] at hlist
  have hdigits := congrArg (ofLetters 0) hlist
  rwa [ofLetters_letters, ofLetters_letters] at hdigits

theorem isNameChar_of_mem_letters {n : Nat} {tail : List Char} {c : Char} (h : c ∈ letters n tail) :
    c ∈ tail ∨ Item.isNameChar c := by
  have hletter : ∀ n, Item.isNameChar (Char.ofNat ('a'.toNat + n % 26)) := by
    intro n
    have hlt := Nat.mod_lt n (show 0 < 26 by decide)
    exact Item.isNameChar_iff.2 (.inl (by rw [toNat_letter _ hlt]; omega))
  fun_induction letters n tail with
  | case1 n tail more hlt =>
    rcases List.mem_cons.1 h with rfl | h
    · exact .inr (hletter n)
    · exact .inl h
  | case2 n tail more hge ih =>
    rcases ih h with h | h
    · rcases List.mem_cons.1 h with rfl | h
      · exact .inr (hletter n)
      · exact .inl h
    · exact .inr h

/-- No mnemonic has an underscore. -/
theorem Mnemonic.underscore_notMem (m : Mnemonic) : '_' ∉ m.name.toList := by
  cases m <;> decide

/-- The label made from an address is a name of labels. -/
theorem Item.labelName_labelName (n : Nat) : LabelName (labelName n) := by
  have hlist := toList_labelName n
  refine ⟨by simp [hlist], fun c hc => ?_, fun m hm => ?_, fun hr => ?_⟩
  · rw [hlist, List.mem_cons, List.mem_cons] at hc
    rcases hc with rfl | rfl | hc
    · decide
    · decide
    · exact (isNameChar_of_mem_letters hc).resolve_left (by simp)
  · exact m.underscore_notMem (by simp [hm, hlist])
  · rw [hr] at hlist
    exact absurd hlist (by simp)

/-! ### Operands -/

namespace OperandKind

variable {k : OperandKind} {v : UInt8} {rest : List Char}

/-- The operand that a byte is listed as. -/
def operand (k : OperandKind) (v : UInt8) : Operand :=
  match k with
  | register => .register v.toNat
  | memory => .memory v.toNat
  | label => .label (labelName v.toNat)
  | literal => .literal v.toNat

theorem kind_operand (k : OperandKind) (v : UInt8) : (k.operand v).kind = k := by
  cases k <;> rfl

/-- The byte names a register if it has to. -/
def Names (k : OperandKind) (v : UInt8) : Prop := k = register → v.toNat < registerCount

/-- Operands that are listed can be written. -/
theorem Names.writable (h : k.Names v) : (k.operand v).Writable := by
  have hv := v.toNat_lt
  cases k with
  | register =>
    have hlt := h rfl
    exact ⟨by omega, by omega⟩
  | memory | literal => exact ⟨by omega, by omega⟩
  | label => exact Item.labelName_labelName _

theorem written_register (v : UInt8) :
    (register.written v).toList = 'R' :: (toString v.toNat).toList := by
  rw [written, String.toList_append]
  rfl

/-- **What is written for an operand is read as the operand.** -/
theorem Names.spelling (h : k.Names v) :
    Item.Spelling (.token (.operand (k.operand v))) (k.written v).toList [] := by
  have hv := Item.numeral_toString v.toNat_lt
  cases k with
  | register =>
    rw [written_register]
    exact .register hv (h rfl) Item.loose_nil.isDigit
  | memory => exact .memory hv Item.loose_nil.isDigit
  | label =>
    exact .label (Item.labelName_labelName _) Item.loose_nil.isNameChar Item.loose_nil.ne_colon
  | literal =>
    have htext : (literal.written v).toList = '#' :: (toString v.toNat).toList := by
      rw [written, String.toList_append]
      rfl
    rw [htext]
    exact .literal hv Item.loose_nil.isDigit

/-- What is written for a byte that should name a register, but does not, is an error. -/
theorem refused_written (h : ¬ k.Names v) (hr : Item.Loose rest) :
    Piece.Refused ((k.written v).toList ++ rest) := by
  obtain ⟨rfl, hlt⟩ := Classical.not_imp.1 h
  have hread := (Item.numeral_toString v.toNat_lt).read_register hr.isDigit
  rw [if_neg hlt] at hread
  rw [written_register, List.cons_append]
  exact Piece.refused_of_read hread

end OperandKind

end Asm256
