/-
Diagnostics: reports on a program, with an optional place and hint.

A diagnostic is written on one line as `file:line:column: SEVERITY: message`,
followed by the hint; what is unknown is left out, and a column is shown only
with its line.
-/
import Asm256.Source.Position
import Asm256.Text.Uppercase

namespace Asm256

/-- How grave a diagnostic is. -/
inductive Severity
  | error
  | warning
  | note
  | other (name : String)
  deriving DecidableEq, Repr

namespace Severity

/-- The name of a severity. -/
def name : Severity → String
  | error => "error"
  | warning => "advertencia"
  | note => "nota"
  | other s => s

/-- The severity of that name. -/
def ofName (s : String) : Severity :=
  if s == error.name then error
  else if s == warning.name then warning
  else if s == note.name then note
  else other s

/-- The severity as a diagnostic shows it. -/
def label (s : Severity) : String := Text.uppercase s.name

end Severity

/-- A report on a program. -/
structure Diagnostic where
  severity : Severity := .error
  message : String
  line : Option Int := none
  column : Option Int := none
  hint : Option String := none
  file : Option String := none
  deriving DecidableEq, Repr

namespace Diagnostic

/-- The diagnostic at a place in the source. -/
def located (d : Diagnostic) (p : Position) : Diagnostic :=
  { d with line := some p.line, column := some p.column }

/-- The diagnostic for a named file. -/
def inFile (d : Diagnostic) (file : String) : Diagnostic := { d with file := some file }

/-- The place as far as it is known. -/
def place (d : Diagnostic) : String :=
  let file := (d.file.map (· ++ ":")).getD ""
  let column := (d.column.map fun n => s!":{n}").getD ""
  let line := (d.line.map fun n => s!"{n}{column}").getD ""
  file ++ line

/-- The text of a diagnostic. -/
def text (d : Diagnostic) : String :=
  let place := if d.place.isEmpty then "" else d.place ++ ": "
  let hint := match d.hint with
    | none | some "" => ""
    | some h => s!"  (pista: {h})"
  s!"{place}{d.severity.label}: {d.message}{hint}"

end Diagnostic

end Asm256
