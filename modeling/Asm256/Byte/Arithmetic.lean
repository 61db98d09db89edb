/-
Arithmetic modulo 256.

A number of any size and sign stands for the byte it is congruent to
(`Byte.wrap`).  Sums, differences, shifts and the complement are taken on
unbounded numbers and wrapped once; a shift amount counts modulo 8.
-/

namespace Asm256.Byte

/-- The byte congruent to `x` modulo 256. -/
def wrap (x : Int) : UInt8 := UInt8.ofInt x

/-- The number `x` is a byte as it stands. -/
def Fits (x : Int) : Prop := 0 ≤ x ∧ x ≤ 255

instance (x : Int) : Decidable (Fits x) := inferInstanceAs (Decidable (_ ∧ _))

/-- The sum modulo 256. -/
def add (x y : Int) : UInt8 := wrap (x + y)

/-- The difference modulo 256. -/
def sub (x y : Int) : UInt8 := wrap (x - y)

/-- The logical shift to the left by `amount` modulo 8. -/
def shiftLeft (x amount : Int) : UInt8 := wrap (x <<< (amount % 8).toNat)

/-- The logical shift of the byte of `x` to the right by `amount` modulo 8. -/
def shiftRight (x amount : Int) : UInt8 := wrap x >>> wrap (amount % 8)

/-- The bitwise complement on eight bits. -/
def complement (x : Int) : UInt8 := wrap (~~~x)

end Asm256.Byte
