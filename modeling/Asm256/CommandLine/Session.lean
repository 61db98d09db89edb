/-
Sessions of the command line.

A session assembles a source file.  If files are asked for it writes them, if a
listing is asked for it prints it, and if neither it runs the program.  It acts
through a `Host`, so the same session runs on the machine at hand and on a
`World` that is a value.  Its messages are shown by the console of the host; what the
program prints is not.
-/
import Asm256.Assembly
import Asm256.CommandLine.Arguments
import Asm256.CommandLine.Console
import Asm256.CommandLine.FileTree
import Asm256.Instruction.Table
import Asm256.Listing
import Asm256.Machine.Run
import Asm256.Text.Newline
import Asm256.Text.Utf8

namespace Asm256

/-- What a session needs of its surroundings. -/
structure Host (m : Type → Type) where
  readFile : String → m (Except FileError (List UInt8))
  writeFile : String → List UInt8 → m (Except FileError Unit)
  /-- Shows a message on the standard output. -/
  print : Message → m Unit
  /-- Shows a message on the error output. -/
  printError : Message → m Unit
  /-- Runs an image to its end on the standard input and output. -/
  execute : Image → m (Ending × Machine)

/-- Why a session breaks off, other than by an error of the program. -/
inductive Abort
  | tooLong (e : Decimal.TooLong)
  | internal (e : InternalError)
  | invalidPath
  | noTabWidth
  | noLogLevel
  deriving DecidableEq, Repr

/-- The wording of the failure. -/
def Abort.message : Abort → String
  | tooLong e => e.message
  | internal e => e.message
  | invalidPath => "embedded null byte"
  | noTabWidth => "'<' not supported between instances of 'list' and 'int'"
  | noLogLevel => "attribute name must be string, not 'list'"

/-- How a session ends. -/
inductive Exit
  /-- The session ends with an exit code. -/
  | code (n : Nat)
  /-- The arguments ask for no session. -/
  | usage (stop : Arguments.Stop)
  /-- The session breaks off. -/
  | aborted (a : Abort)
  /-- The program is still running. -/
  | unfinished
  deriving DecidableEq, Repr

namespace Image

/-- The code in hexadecimal, one byte on a line. -/
def hexFile (i : Image) : List UInt8 :=
  Utf8.encode (String.join (i.code.map fun b => Byte.hex b.toNat ++ "\n"))

/-- The code in binary, one byte on a line. -/
def binaryFile (i : Image) : List UInt8 :=
  Utf8.encode (String.join (i.code.map fun b => Byte.binary b.toNat ++ "\n"))

/-- The memory as it is. -/
def rawFile (i : Image) : List UInt8 := i.memory.toList

end Image

namespace Arguments

/-- The files that are asked for, with their contents.  An empty path asks for none. -/
def files (a : Arguments) (i : Image) : List (String × List UInt8) :=
  [(a.hexPath, i.hexFile), (a.binaryPath, i.binaryFile), (a.imagePath, i.rawFile)].filterMap
    fun (path, bytes) => match path with
      | none | some "" => none
      | some path => some (path, bytes)

end Arguments

namespace Session

variable {m : Type → Type} [Monad m]

/-- Shows a report on the error output and ends. -/
def fail (host : Host m) (code : Nat) (report : String) : m Exit := do
  host.printError
    { text := report, style := some .boldRed, markup := false, highlight := false, softWrap := true }
  return .code code

/-- Ends because of a file. -/
def failFile (host : Host m) (code : Nat) (introduction path : String) (e : FileError) : m Exit :=
  match e with
  | .invalidPath => return .aborted .invalidPath
  | .system e => fail host code (introduction ++ e.message path)

/-- The lines that show the registers and the flags. -/
def dump (s : Machine) : List String :=
  let register := fun (value, i) =>
    s!"R{Text.padRight 2 (toString i)} = {Text.padLeft 3 (toString value)}"
  let borrow := if s.borrow then "True" else "False"
  (s.registers.toList.map UInt8.toNat).zipIdx.map register
    ++ [s!"pc = {s.pc}  cmp = {s.difference.toNat}  underflow = {borrow}"]

/-- Shows lines, with the marks in them or without. -/
def printLines (host : Host m) (markup : Bool) (lines : List String) : m Unit :=
  lines.forM fun line => host.print { text := line, markup, highlight := false }

/-- The first line of a session that runs a program. -/
def banner (source : String) (i : Image) : Message where
  text :=
    s!"Running program '{source}' ({i.codeSize}/{memorySize} bytes in use, {i.freeSize} bytes free)"
  style := some .boldGreen
  markup := false
  highlight := false
  softWrap := true

/-- Runs an assembled program. -/
def runImage (host : Host m) (a : Arguments) (i : Image) : m Exit := do
  host.print (banner a.source i)
  let (ending, s) ← host.execute i
  match ending with
  | .failed (.fault f) => fail host 1 (f.diagnostic.inFile a.source).text
  | .failed (.tooLong e) => return .aborted (.tooLong e)
  | .running => return .unfinished
  | .halted =>
      host.print
        { text := "Program exited successfully", style := some .boldGreen, highlight := false }
      if a.dump then printLines host true (dump s)
      return .code 0

/-- Writes files one after the other; answers with the first that fails. -/
def writeFiles (host : Host m) : List (String × List UInt8) → m (Option (String × FileError))
  | [] => return none
  | (path, bytes) :: files => do
      match ← host.writeFile path bytes with
      | .error e => return some (path, e)
      | .ok () => writeFiles host files

/-- Does what is asked for with an assembled program. -/
def useImage (host : Host m) (a : Arguments) (i : Image) : m Exit := do
  match ← writeFiles host (a.files i) with
  | some (path, e) => failFile host 3 "ERROR al escribir salidas: " path e
  | none =>
      if a.listing then
        match Listing.entries .standard i.memory.toList i.codeSize with
        | .ok es => printLines host false (Listing.lines es)
        | .error _ => pure ()
      if a.listing || !(a.files i).isEmpty then return .code 0
      else runImage host a i

/-- The report on a source that cannot be read. -/
def unreadable (source cause : String) : String := s!"ERROR: no pude leer {source}: {cause}"

/-- Assembles the source and does what is asked for. -/
def useSource (host : Host m) (a : Arguments) (text : List Char) : m Exit :=
  match a.tabWidth with
  | none => return .aborted .noTabWidth
  | some tabWidth =>
      match assemble .standard tabWidth text with
      | .ok assembly => useImage host a assembly.image
      | .error (.source e) => fail host 1 (e.diagnostic.inFile a.source).text
      | .error (.tooLong e) => return .aborted (.tooLong e)
      | .error (.internal e) => return .aborted (.internal e)

/-- Reads the source and does what is asked for. -/
def readSource (host : Host m) (a : Arguments) : m Exit := do
  match ← host.readFile a.source with
  | .error e => failFile host 2 (unreadable a.source "") a.source e
  | .ok bytes =>
      match Utf8.decode bytes with
      | .error e => fail host 2 (unreadable a.source e.message)
      | .ok text => useSource host a (Text.normalizeNewlines text)

/-- A session with the given arguments. -/
def run (host : Host m) (args : List String) : m Exit :=
  match Arguments.read args with
  | .error stop => return .usage stop
  | .ok a => if a.hasLogLevel then readSource host a else return .aborted .noLogLevel

end Session

end Asm256
