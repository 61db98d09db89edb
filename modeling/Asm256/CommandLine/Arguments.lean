/-
The arguments of the command line.

An argument that starts with a hyphen is an option, unless it is a lone hyphen,
looks like a negative number, or holds a space and names no option.  Options are
given by name, or by a beginning of the long name that no other option has; a
value follows as the next argument, behind `=`, or directly behind a short name.
A value in the same argument as the name that reads `--` takes away the value of
the option.  Behind an argument `--` no argument is an option.

All arguments are classified before the first is used, so an ambiguous name
counts before everything else; they are then used from left to right, and a
request for help ends the reading.
-/
import Asm256.InvalidArgument
import Asm256.Text.Integer

namespace Asm256

/-- What the command line asks for. -/
structure Arguments where
  source : String
  /-- The tab width, unless it has been taken away. -/
  tabWidth : Option Nat := some defaultTabWidth
  /-- The level of messages has not been taken away. -/
  hasLogLevel : Bool := true
  /-- The file for the code in hexadecimal. -/
  hexPath : Option String := none
  /-- The file for the code in binary. -/
  binaryPath : Option String := none
  /-- The file for the memory. -/
  imagePath : Option String := none
  /-- A listing is asked for. -/
  listing : Bool := false
  /-- The registers are asked for at the end. -/
  dump : Bool := false
  deriving DecidableEq, Repr

namespace Arguments

/-- Why the arguments ask for nothing: help is wanted, or they are wrong. -/
inductive Stop
  | help
  | wrong
  deriving DecidableEq, Repr

/-- What an option sets. -/
inductive Setting
  | help | tabWidth | hexPath | binaryPath | imagePath | listing | dump | logLevel
  deriving DecidableEq, Repr

/-- The names of the options. -/
def names : List (String × Setting) :=
  [("-h", .help), ("--help", .help), ("-t", .tabWidth), ("--tabsize", .tabWidth),
   ("--emit-hex", .hexPath), ("--emit-bin", .binaryPath), ("--emit-image", .imagePath),
   ("--disasm", .listing), ("--dump", .dump), ("--log-level", .logLevel)]

/-- The option takes a value. -/
def Setting.takesValue : Setting → Bool
  | help | listing | dump => false
  | tabWidth | hexPath | binaryPath | imagePath | logLevel => true

/-- An argument by its class.  An option may have a value attached, behind `=` or directly. -/
inductive Argument
  | plain (text : String)
  | separator
  | option (setting : Setting) (isLong : Bool) (attached : Option (List Char))
  | unknown
  deriving DecidableEq, Repr

/-- The text looks like a negative number, whole or with a fraction; a line may end behind it. -/
def looksNegative (cs : List Char) : Bool :=
  let isDigit := fun c => (Text.digitValue? c).isSome
  let ends := fun cs => cs.isEmpty || cs == ['\n']
  match cs with
  | '-' :: cs =>
      match cs.dropWhile isDigit with
      | '.' :: fraction => fraction.head?.any isDigit && ends (fraction.dropWhile isDigit)
      | rest => cs.head?.any isDigit && ends rest
  | _ => false

/-- The options that an argument with a hyphen in front, which is no option's name, may stand for. -/
def candidates (cs : List Char) : List Argument :=
  let head := cs.takeWhile (· != '=')
  let value := match cs.dropWhile (· != '=') with
    | [] => none
    | _ :: text => some text
  match value, names.lookup (String.ofList head) with
  | some text, some setting => [.option setting (head.length != 2) (some text)]
  | _, _ =>
      if cs.take 2 = ['-', '-'] then
        (names.filter fun (name, _) => head.isPrefixOf name.toList).map
          fun (_, setting) => .option setting true value
      else
        ((names.lookup (String.ofList (cs.take 2))).map
          fun setting => .option setting false (some (cs.drop 2))).toList

/-- The class of an argument. -/
def classify (s : String) : Except Stop Argument :=
  let cs := s.toList
  if cs.head? ≠ some '-' then .ok (.plain s)
  else match names.lookup s with
    | some setting => .ok (.option setting (cs.length != 2) none)
    | none =>
        if cs.length = 1 then .ok (.plain s)
        else match candidates cs with
          | [argument] => .ok argument
          | _ :: _ :: _ => .error .wrong
          | [] => .ok (if looksNegative cs || cs.contains ' ' then .plain s else .unknown)

/-- The classes of the arguments. -/
def classifyAll : List String → Except Stop (List Argument)
  | [] => .ok []
  | s :: rest =>
      if s = "--" then .ok (.separator :: rest.map .plain)
      else match classify s with
        | .error e => .error e
        | .ok argument => (classifyAll rest).map (argument :: ·)

/-- The arguments used so far.  Superfluous ones are an error at the end. -/
structure Draft where
  settings : Arguments := { source := "" }
  hasSource : Bool := false
  superfluous : Bool := false

/-- The levels of messages that can be asked for. -/
def logLevels : List String := ["DEBUG", "INFO", "WARNING", "ERROR", "CRITICAL"]

/-- Uses an argument that is no option: the first is the source. -/
def Draft.plain (d : Draft) (text : String) : Draft :=
  if d.hasSource then { d with superfluous := true }
  else { d with settings := { d.settings with source := text }, hasSource := true }

/-- Uses an option with a value. -/
def Draft.assign (d : Draft) (setting : Setting) (value : String) : Except Stop Draft :=
  let s := d.settings
  match setting with
  | .tabWidth =>
      match Text.integer? value with
      | some n => if 1 ≤ n ∧ n ≤ 255 then .ok { d with settings := { s with tabWidth := some n.toNat } }
                  else .error .wrong
      | none => .error .wrong
  | .hexPath => .ok { d with settings := { s with hexPath := some value } }
  | .binaryPath => .ok { d with settings := { s with binaryPath := some value } }
  | .imagePath => .ok { d with settings := { s with imagePath := some value } }
  | .logLevel =>
      if logLevels.contains value then .ok { d with settings := { s with hasLogLevel := true } }
      else .error .wrong
  | .help | .listing | .dump => .error .wrong

/-- Takes away the value of an option. -/
def Draft.unassign (d : Draft) (setting : Setting) : Draft :=
  let s := d.settings
  match setting with
  | .tabWidth => { d with settings := { s with tabWidth := none } }
  | .hexPath => { d with settings := { s with hexPath := none } }
  | .binaryPath => { d with settings := { s with binaryPath := none } }
  | .imagePath => { d with settings := { s with imagePath := none } }
  | .logLevel => { d with settings := { s with hasLogLevel := false } }
  | .help | .listing | .dump => d

/-- Uses an option with an attached value. -/
def Draft.attach (d : Draft) (setting : Setting) (value : List Char) : Except Stop Draft :=
  if value = ['-', '-'] then .ok (d.unassign setting) else d.assign setting (String.ofList value)

/-- Uses an option without a value. -/
def Draft.switch (d : Draft) (setting : Setting) : Except Stop Draft :=
  match setting with
  | .help => .error .help
  | .listing => .ok { d with settings := { d.settings with listing := true } }
  | .dump => .ok { d with settings := { d.settings with dump := true } }
  | .tabWidth | .hexPath | .binaryPath | .imagePath | .logLevel => .error .wrong

/-- What comes of text attached to the short name of help.  It has to be further short names: that of
help again, or that of an option with a value, which is attached or `valueFollows` in the next
argument. -/
def behindHelp (valueFollows : Bool) : List Char → Stop
  | [] => .wrong
  | ['h'] => .help
  | 'h' :: cs => behindHelp valueFollows cs
  | ['t'] => if valueFollows then .help else .wrong
  | 't' :: _ => .help
  | _ => .wrong

/-- The argument can be the value of the option in front of it. -/
def Argument.isPlain : Argument → Bool
  | plain _ => true
  | _ => false

/-- Uses classified arguments. -/
def Draft.use (d : Draft) : List Argument → Except Stop Draft
  | [] => .ok d
  | .plain text :: .separator :: rest =>
      ({ d.plain text with superfluous := d.superfluous || d.hasSource } : Draft).use rest
  | .plain text :: rest => (d.plain text).use rest
  | .separator :: .plain text :: rest => (d.plain text).use rest
  | .separator :: rest => ({ d with superfluous := true } : Draft).use rest
  | .unknown :: rest => ({ d with superfluous := true } : Draft).use rest
  | .option setting isLong (some v) :: rest =>
      if setting.takesValue then do (← d.attach setting v).use rest
      else if isLong then .error .wrong
      else .error (behindHelp (rest.head?.any Argument.isPlain) v)
  | .option setting _ none :: .plain text :: rest =>
      if setting.takesValue then do (← d.assign setting text).use rest
      else do (← d.switch setting).use (.plain text :: rest)
  | .option setting _ none :: rest =>
      if setting.takesValue then .error .wrong
      else do (← d.switch setting).use rest

/-- What the arguments ask for. -/
def read (args : List String) : Except Stop Arguments := do
  let d ← ({} : Draft).use (← classifyAll args)
  if d.hasSource && !d.superfluous then return d.settings else throw .wrong

end Arguments

end Asm256
