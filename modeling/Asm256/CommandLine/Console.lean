/-
Messages, and the consoles that show them.

What a session has to say it says in messages.  A console makes of a message what is
written for it: it may set styles, follow the marks in a text, break and fill lines,
or put pictures in place of their names.  Which console it has, a session does not
know.

The console at hand is one without styles, marks and pictures (`Console.fixedWidth`).
It drops controls that ring the bell or move the cursor other than to the next line.
A tab is filled up with spaces to the next multiple of eight columns, and a line that
is longer than the console is wide loses the blanks at its end that lie beyond its
width; lines are not broken.
-/
import Asm256.Text.Blank
import Asm256.Text.Columns

namespace Asm256

/-- How a message is set off. -/
inductive Style
  | boldGreen
  | boldRed
  deriving DecidableEq, Repr

/-- A text for a console, and how it is to be shown. -/
structure Message where
  text : String
  style : Option Style := none
  /-- What stands in brackets is taken for marks. -/
  markup : Bool := true
  /-- Numbers, paths and the like are set off. -/
  highlight : Bool := true
  /-- Lines are not broken at the width of the console. -/
  softWrap : Bool := false
  deriving DecidableEq, Repr

/-- What is written for a message, on the standard output and on the error output. -/
structure Console where
  output : Message → String
  errors : Message → String

namespace Console

/-- The code points of the controls that are dropped. -/
def droppedControls : List Nat := [7, 8, 11, 12, 13]

/-- The columns from one tab stop to the next. -/
def tabStop : Nat := 8

/-- The width of a line. -/
def width : Nat := 80

/-- A line with its tabs filled up, behind `column` columns of it. -/
def expandTabs (column : Nat) : List Char → List Char
  | [] => []
  | c :: cs =>
      if c = '\t' then
        let gap := tabStop - column % tabStop
        List.replicate gap ' ' ++ expandTabs (column + gap) cs
      else c :: expandTabs (column + Text.columns c) cs

/-- A line without the blanks at its end that lie beyond the width. -/
def cropBlanks (cs : List Char) : List Char :=
  let blanks := (cs.reverse.takeWhile Text.isBlank).length
  cs.take (cs.length - min blanks (cs.length - width))

/-- The lines of a text. -/
def lines : List Char → List (List Char)
  | [] => [[]]
  | c :: cs =>
      if c = '\n' then [] :: lines cs
      else match lines cs with
        | l :: ls => (c :: l) :: ls
        | [] => [[c]]

/-- A text as it appears, with its line end. -/
def line (s : String) : String :=
  let shown := s.toList.filter fun c => !droppedControls.contains c.toNat
  String.join ((lines shown).map fun l => String.ofList (cropBlanks (expandTabs 0 l)) ++ "\n")

/-- The console that shows no more of a message than its text. -/
def fixedWidth : Console where
  output m := line m.text
  errors m := line m.text

end Console

end Asm256
