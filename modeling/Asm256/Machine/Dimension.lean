/-
The dimensions of the machine.
-/

namespace Asm256

/-- The bytes of the memory, which code and data share. -/
abbrev memorySize : Nat := 256

/-- The number of registers. -/
abbrev registerCount : Nat := 13

/-- The contents of the memory. -/
abbrev Memory := Vector UInt8 memorySize

/-- The contents of the registers. -/
abbrev Registers := Vector UInt8 registerCount

end Asm256
