/-
Worlds: the surroundings of a session as a value.
-/
import Asm256.CommandLine.Session

namespace Asm256

/-- Files, the input that is not read yet, and what has been printed. -/
structure World where
  files : FileTree
  input : List Char := []
  output : String := ""
  errors : String := ""

namespace World

/-- A host that acts on a world, shows messages on a console, and runs a program for at most `limit`
instructions. -/
def host (console : Console) (limit : Nat) : Host (StateM World) where
  readFile path := do return (← get).files.read path
  writeFile path bytes := do
    match (← get).files.write path bytes with
    | .error e => return .error e
    | .ok files =>
        modify fun w => { w with files := files }
        return .ok ()
  print message := modify fun w => { w with output := w.output ++ console.output message }
  printError message := modify fun w => { w with errors := w.errors ++ console.errors message }
  execute image := do
    let (ending, s) := (Machine.ofImage image (← get).input).run limit
    modify fun w => { w with input := s.input, output := w.output ++ s.output }
    return (ending, s)

/-- A session in a world. -/
def session (console : Console) (limit : Nat) (args : List String) (w : World) : Exit × World :=
  (Session.run (host console limit) args).run w

end World

end Asm256
