/-
The program: a session on the machine at hand.
-/
import Asm256.CommandLine.Session

namespace Asm256.Terminal

/-- What the system says about a file. -/
def systemError : IO.Error → SystemError
  | .noFileOrDirectory .. => .notFound
  | .inappropriateType _ 21 _ => .isDirectory
  | .inappropriateType .. => .notDirectory
  | .invalidArgument _ _ "name too long" => .nameTooLong
  | e => .other (toString e)

/-- An action on a file with the errors that it may meet. -/
def onFile {α : Type} (path : String) (action : IO α) : IO (Except FileError α) := do
  if path.contains '\x00' then return .error .invalidPath
  try return .ok (← action) catch e => return .error (.system (systemError e))

/-- Prints a text at once. -/
def printTo (stream : IO.FS.Stream) (text : String) : IO Unit := do
  stream.putStr text
  stream.flush

/-- Runs a machine to its end.  An instruction that lacks input is tried again with the next line. -/
partial def execute (stdin stdout : IO.FS.Stream) (s : Machine) : IO (Ending × Machine) := do
  if s.halted then return (.halted, s)
  match s.step with
  | .ok _ next =>
      printTo stdout next.output
      execute stdin stdout { next with output := "" }
  | .error (.fault .inputExhausted) stuck =>
      let line ← stdin.getLine
      if line.isEmpty then return (.failed (.fault .inputExhausted), stuck)
      execute stdin stdout { s with input := line.toList }
  | .error trap stuck => return (.failed trap, stuck)

/-- The files and streams of the system. -/
def host : Host IO where
  readFile path := onFile path do return (← IO.FS.readBinFile path).toList
  writeFile path bytes := onFile path (IO.FS.writeBinFile path ⟨bytes.toArray⟩)
  print message := do printTo (← IO.getStdout) (Console.fixedWidth.output message)
  printError message := do printTo (← IO.getStderr) (Console.fixedWidth.errors message)
  execute image := do execute (← IO.getStdin) (← IO.getStdout) (.ofImage image [])

/-- How to call the program. -/
def usage : String :=
  "usage: asm256 [-h] [-t TABSIZE] [--emit-hex PATH] [--emit-bin PATH] [--emit-image PATH] "
    ++ "[--disasm] [--dump] [--log-level LEVEL] source\n"

/-- The exit code of a session; what is left to say is said. -/
def finish : Exit → IO UInt32
  | .code n => return n.toUInt32
  | .usage .help => do
      printTo (← IO.getStdout) usage
      return 0
  | .usage .wrong => do
      printTo (← IO.getStderr) usage
      return 2
  | .aborted a => do
      printTo (← IO.getStderr) (a.message ++ "\n")
      return 1
  | .unfinished => return 1

end Asm256.Terminal

/-- Runs a session with the arguments of the command line. -/
def main (args : List String) : IO UInt32 := do
  Asm256.Terminal.finish (← Asm256.Session.run Asm256.Terminal.host args)
