/-
Line input: the numbers that a program reads.

A line ends at a line feed or at the end of the text, and carriage returns at
its end do not belong to it.  A line is accepted as a number when it is a byte
in decimal digits, with a plus sign or without, and blanks around it; all other
lines are passed over.
-/
import Asm256.Machine.Fault
import Asm256.Text.Blank

namespace Asm256.LineStream

/-- The next line of a text, and the text behind it. -/
def nextLine? (text : List Char) : Option (List Char × List Char) :=
  if text.isEmpty then none
  else
    let line := text.takeWhile (· != '\n')
    some ((line.reverse.dropWhile (· == '\r')).reverse, (text.dropWhile (· != '\n')).drop 1)

theorem length_lt_of_nextLine? {text line rest : List Char} (h : nextLine? text = some (line, rest)) :
    rest.length < text.length := by
  simp only [nextLine?] at h
  split at h
  · cases h
  · next hne =>
      cases h
      have hlen := congrArg List.length (List.takeWhile_append_dropWhile (p := (· != '\n')) (l := text))
      simp only [List.length_append] at hlen
      have hpos : 0 < text.length := List.length_pos_iff.2 (by simpa using hne)
      simp only [List.length_drop]
      omega

/-- The byte that a line denotes, if it is accepted. -/
def byte? (line : List Char) : Except Decimal.TooLong (Option UInt8) :=
  let numeral := match Text.trimBlanks line with
    | '+' :: digits => digits
    | digits => digits
  if numeral.isEmpty || !numeral.all Decimal.isDigit then .ok none
  else match Decimal.read numeral with
    | .error e => .error e
    | .ok n => .ok (if n < 256 then some (UInt8.ofNat n) else none)

/-- The byte of the next accepted line, and the text behind that line. -/
def readByte (text : List Char) : Except Trap UInt8 × List Char :=
  match _ : nextLine? text with
  | none => (.error (.fault .inputExhausted), [])
  | some (line, rest) =>
      match byte? line with
      | .error e => (.error (.tooLong e), rest)
      | .ok (some b) => (.ok b, rest)
      | .ok none => readByte rest
termination_by text.length
decreasing_by exact length_lt_of_nextLine? ‹_›

/-- A line as it is written. -/
def written (line : String) : String := line ++ "\n"

end Asm256.LineStream
