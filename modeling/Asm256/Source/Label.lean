/-
Label tables: the labels of a program in the order of their definitions.
-/
import Asm256.Source.Position

namespace Asm256

/-- A label, the address it stands for and the place of its definition. -/
structure Label where
  name : String
  address : Int
  pos : Position
  deriving DecidableEq, Repr

/-- The labels of a program by definition. -/
abbrev LabelTable := List Label

/-- The label with this name. -/
def LabelTable.find? (labels : LabelTable) (name : String) : Option Label :=
  List.find? (fun l => l.name == name) labels

end Asm256
