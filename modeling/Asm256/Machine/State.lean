/-
The state of the machine.

Code and data share the memory: the first `codeSize` bytes are code, and an
offset counts from the first byte behind them.
-/
import Asm256.Image.Encoding
import Asm256.InvalidArgument

namespace Asm256

/-- The number of a register. -/
abbrev Register := Fin registerCount

/-- The state of the machine, with the input not read yet and the output so far. -/
structure Machine where
  memory : Memory
  codeSize : Nat
  codeSize_le : codeSize ≤ memorySize
  registers : Registers := .replicate registerCount 0
  /-- The address of the next byte of code. -/
  pc : Nat := 0
  /-- The difference modulo 256 of the last comparison. -/
  difference : UInt8 := 0
  /-- The second operand of the last comparison was the greater one. -/
  borrow : Bool := false
  halted : Bool := false
  /-- The number of instructions executed. -/
  steps : Nat := 0
  input : List Char := []
  output : String := ""

namespace Machine

/-- The machine that has an image in its memory and is about to start. -/
def ofImage (i : Image) (input : List Char) : Machine :=
  { memory := i.memory, codeSize := i.codeSize, codeSize_le := i.codeSize_le, input := input }

/-- The machine with the given contents, which have to be of the right sizes. -/
def load (memory registers : List UInt8) (codeSize : Int) (input : List Char) :
    Except InvalidArgument Machine :=
  if hm : memory.length = memorySize then
    if hr : registers.length = registerCount then
      if hc : 0 ≤ codeSize ∧ codeSize ≤ memorySize then
        .ok { memory := ⟨memory.toArray, by simpa using hm⟩,
              registers := ⟨registers.toArray, by simpa using hr⟩,
              codeSize := codeSize.toNat, codeSize_le := by omega, input := input }
      else .error .codeSize
    else .error .registerCount
  else .error .memorySize

/-- The address of the data byte at an offset, if it lies in memory. -/
def dataAddress? (m : Machine) (offset : Int) : Option (Fin memorySize) :=
  if h : 0 ≤ m.codeSize + offset ∧ m.codeSize + offset < memorySize then
    some ⟨(m.codeSize + offset).toNat, by omega⟩
  else none

end Machine

end Asm256
