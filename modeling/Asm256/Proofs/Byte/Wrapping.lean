/-
Bytes of numbers of any size: the byte of a number is its remainder modulo 256.

Sums, differences, complements and shifts are taken on numbers that have no bound and may be
negative, and wrapped once:
* `Byte.toNat_wrap_eq_land` — the byte of a number is what a mask of eight bits leaves of it;
* `Byte.wrap_eq_wrap_iff` — two numbers have one byte exactly if they are congruent;
* `Byte.toNat_add`, `Byte.toNat_sub`, `Byte.toNat_complement`, `Byte.toNat_shiftLeft`,
  `Byte.toNat_shiftRight` — each result as a number;
* `Byte.apply_eq_wrapped` — on bytes they are the operations of the machine.

The main result is `Byte.arithmetic_modulo_256`.
-/
import Asm256.Byte.Arithmetic
import Asm256.Machine.Operation
import Mathlib

namespace Asm256.Byte

/-! ### The byte of a number -/

theorem toNat_wrap (x : Int) : ((wrap x).toNat : Int) = x % 256 := by
  rw [wrap, UInt8.ofInt, UInt8.toNat_ofNat']
  omega

/-- **The byte of a number is what a mask of eight bits leaves of it**, in two's complement if it is
negative. -/
theorem toNat_wrap_eq_land (x : Int) : ((wrap x).toNat : Int) = Int.land x 255 := by
  rw [toNat_wrap]
  cases x with
  | ofNat n =>
    show (n : Int) % 256 = ((n &&& 2 ^ 8 - 1 : Nat) : Int)
    rw [Nat.and_two_pow_sub_one_eq_mod]
    omega
  | negSucc n =>
    -- the bits of `-n - 1` are those that `n` does not have
    have hbits : Nat.ldiff 255 n = 2 ^ 8 - (n % 2 ^ 8 + 1) := by
      refine Nat.eq_of_testBit_eq fun i => ?_
      have hlt : n % 2 ^ 8 < 2 ^ 8 := Nat.mod_lt _ (by omega)
      have hmask : Nat.testBit 255 i = decide (i < 8) := Nat.testBit_two_pow_sub_one 8 i
      rw [Nat.testBit_ldiff, hmask, Nat.testBit_two_pow_sub_succ hlt, Nat.testBit_mod_two_pow]
      by_cases hi : i < 8 <;> simp [hi]
    show Int.negSucc n % 256 = ((Nat.ldiff 255 n : Nat) : Int)
    rw [hbits, Int.negSucc_eq]
    omega

/-- The byte of a number that is a byte is that number. -/
theorem toNat_wrap_of_fits {x : Int} (h : Fits x) : ((wrap x).toNat : Int) = x := by
  rw [toNat_wrap]
  unfold Fits at h
  omega

theorem eq_of_toNat_eq {a b : UInt8} (h : (a.toNat : Int) = b.toNat) : a = b :=
  UInt8.toNat_inj.1 (Int.natCast_inj.1 h)

@[simp] theorem wrap_toNat (b : UInt8) : wrap b.toNat = b := by
  have hb := b.toNat_lt
  refine eq_of_toNat_eq ?_
  rw [toNat_wrap]
  omega

/-- A number is a byte exactly if it is its own byte. -/
theorem fits_iff {x : Int} : Fits x ↔ ((wrap x).toNat : Int) = x := by
  refine ⟨toNat_wrap_of_fits, fun h => ?_⟩
  rw [toNat_wrap] at h
  unfold Fits
  omega

/-- Two numbers have one byte exactly if they are congruent. -/
theorem wrap_eq_wrap_iff {x y : Int} : wrap x = wrap y ↔ x % 256 = y % 256 := by
  rw [← toNat_wrap, ← toNat_wrap, Int.natCast_inj, UInt8.toNat_inj]

/-! ### Results as numbers -/

theorem toNat_add (x y : Int) : ((add x y).toNat : Int) = (x + y) % 256 :=
  toNat_wrap (x + y)

theorem toNat_sub (x y : Int) : ((sub x y).toNat : Int) = (x - y) % 256 :=
  toNat_wrap (x - y)

theorem toNat_complement (x : Int) : ((complement x).toNat : Int) = 255 - x % 256 := by
  -- two's complement, on numbers of any size
  have hnot : ~~~x = -x - 1 := by
    cases x with
    | ofNat n => exact (Int.negSucc_eq n).trans (by rw [Int.ofNat_eq_natCast]; omega)
    | negSucc n => exact (by rw [Int.negSucc_eq]; omega : (n : Int) = -Int.negSucc n - 1)
  rw [complement, toNat_wrap, hnot]
  omega

theorem toNat_shiftLeft (x a : Int) :
    ((shiftLeft x a).toNat : Int) = x % 256 * 2 ^ (a % 8).toNat % 256 := by
  rw [shiftLeft, toNat_wrap, Int.shiftLeft_eq]
  -- the bits above the byte do not get back into it
  exact ((Int.mod_modEq x 256).mul_right _).symm

theorem toNat_shiftRight (x a : Int) :
    ((shiftRight x a).toNat : Int) = x % 256 / 2 ^ (a % 8).toNat := by
  -- the amount is a byte below 8, so the byte shift takes it as it is
  have hamount : (wrap (a % 8)).toNat % 8 = (a % 8).toNat := by
    have h := toNat_wrap (a % 8)
    omega
  rw [shiftRight, UInt8.toNat_shiftRight, hamount, Nat.shiftRight_eq_div_pow, Int.natCast_ediv,
    toNat_wrap, Nat.cast_pow, Nat.cast_ofNat]

/-! ### Results of congruent numbers -/

theorem wrap_emod (x : Int) : wrap (x % 256) = wrap x :=
  wrap_eq_wrap_iff.2 (Int.emod_emod_of_dvd x dvd_rfl)

theorem add_emod (x y : Int) : add (x % 256) (y % 256) = add x y :=
  wrap_eq_wrap_iff.2 (Int.add_emod x y 256).symm

theorem sub_emod (x y : Int) : sub (x % 256) (y % 256) = sub x y :=
  wrap_eq_wrap_iff.2 (Int.sub_emod x y 256).symm

theorem complement_emod (x : Int) : complement (x % 256) = complement x := by
  refine eq_of_toNat_eq ?_
  rw [toNat_complement, toNat_complement, Int.emod_emod_of_dvd x dvd_rfl]

theorem shiftLeft_emod (x a : Int) : shiftLeft (x % 256) (a % 8) = shiftLeft x a := by
  refine eq_of_toNat_eq ?_
  rw [toNat_shiftLeft, toNat_shiftLeft, Int.emod_emod_of_dvd x dvd_rfl,
    Int.emod_emod_of_dvd a dvd_rfl]

theorem shiftRight_emod (x a : Int) : shiftRight (x % 256) (a % 8) = shiftRight x a := by
  refine eq_of_toNat_eq ?_
  rw [toNat_shiftRight, toNat_shiftRight, Int.emod_emod_of_dvd x dvd_rfl,
    Int.emod_emod_of_dvd a dvd_rfl]

/-- Subtracting takes back what was added, through the byte of the sum. -/
theorem sub_add_cancel (x y : Int) : sub (add x y).toNat y = wrap x := by
  refine wrap_eq_wrap_iff.2 ?_
  rw [toNat_add, Int.emod_sub_emod, Int.add_sub_cancel]

/-! ### Operations on bytes -/

section Bytes

variable (a b : UInt8)

theorem toNat_emod : (a.toNat : Int) % 256 = a.toNat := by
  rw [← toNat_wrap, wrap_toNat]

/-- A byte modulo 8 is the amount that a shift of a byte takes. -/
theorem toNat_mod_eight : (b % 8).toNat % 8 = ((b.toNat : Int) % 8).toNat := by
  have height : (8 : UInt8).toNat = 8 := rfl
  rw [UInt8.toNat_mod, height]
  omega

theorem add_toNat : add a.toNat b.toNat = a + b := by
  refine eq_of_toNat_eq ?_
  rw [toNat_add, UInt8.toNat_add]
  omega

theorem sub_toNat : sub a.toNat b.toNat = a - b := by
  have hb := b.toNat_lt
  refine eq_of_toNat_eq ?_
  rw [toNat_sub, UInt8.toNat_sub]
  omega

theorem complement_toNat : complement a.toNat = ~~~a := by
  have ha := a.toNat_lt
  refine eq_of_toNat_eq ?_
  rw [toNat_complement, UInt8.toNat_not, UInt8.size]
  omega

theorem shiftLeft_toNat : shiftLeft a.toNat b.toNat = a <<< (b % 8) := by
  refine eq_of_toNat_eq ?_
  rw [toNat_shiftLeft, UInt8.toNat_shiftLeft, toNat_mod_eight, Nat.shiftLeft_eq, toNat_emod]
  push_cast
  rfl

theorem shiftRight_toNat : shiftRight a.toNat b.toNat = a >>> (b % 8) := by
  refine eq_of_toNat_eq ?_
  rw [toNat_shiftRight, UInt8.toNat_shiftRight, toNat_mod_eight, Nat.shiftRight_eq_div_pow,
    toNat_emod]
  push_cast
  rfl

/-- **The machine computes with this arithmetic**, on the bytes of its registers. -/
theorem apply_eq_wrapped : Arithmetic.add.apply a b = add a.toNat b.toNat ∧
    Arithmetic.sub.apply a b = sub a.toNat b.toNat ∧
    Arithmetic.shiftLeft.apply a b = shiftLeft a.toNat b.toNat ∧
    Arithmetic.shiftRight.apply a b = shiftRight a.toNat b.toNat ∧ ~~~a = complement a.toNat :=
  ⟨(add_toNat a b).symm, (sub_toNat a b).symm, (shiftLeft_toNat a b).symm,
    (shiftRight_toNat a b).symm, (complement_toNat a).symm⟩

end Bytes

/-- **The operations on bytes are arithmetic modulo 256** on numbers of any size and sign: every
result is a byte that only the remainders of the operands modulo 256 and of a shift amount modulo 8
decide, adding and subtracting are inverse, and the numbers that are bytes are those that are their
own byte. -/
theorem arithmetic_modulo_256 (x y a : Int) :
    (∀ b ∈ [wrap x, add x y, sub x y, complement x, shiftLeft x a, shiftRight x a], b.toNat ≤ 255) ∧
    (wrap x = wrap (x % 256) ∧ add x y = add (x % 256) (y % 256) ∧
      sub x y = sub (x % 256) (y % 256) ∧ complement x = complement (x % 256) ∧
      shiftLeft x a = shiftLeft (x % 256) (a % 8) ∧
      shiftRight x a = shiftRight (x % 256) (a % 8)) ∧
    ((wrap x).toNat : Int) = x % 256 ∧
    ((add x y).toNat : Int) = (x + y) % 256 ∧
    ((sub x y).toNat : Int) = (x - y) % 256 ∧
    ((complement x).toNat : Int) = 255 - x % 256 ∧
    ((shiftLeft x a).toNat : Int) = x % 256 * 2 ^ (a % 8).toNat % 256 ∧
    ((shiftRight x a).toNat : Int) = x % 256 / 2 ^ (a % 8).toNat ∧
    sub (add x y).toNat y = wrap x ∧
    (Fits x ↔ ((wrap x).toNat : Int) = x) := by
  refine ⟨fun b _ => Nat.le_of_lt_succ b.toNat_lt, ?_, toNat_wrap x, toNat_add x y, toNat_sub x y,
    toNat_complement x, toNat_shiftLeft x a, toNat_shiftRight x a, sub_add_cancel x y, fits_iff⟩
  exact ⟨(wrap_emod x).symm, (add_emod x y).symm, (sub_emod x y).symm, (complement_emod x).symm,
    (shiftLeft_emod x a).symm, (shiftRight_emod x a).symm⟩

end Asm256.Byte
