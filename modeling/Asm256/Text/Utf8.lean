/-
Text from bytes in UTF-8.

The first byte of a character says how many bytes follow and from which ranges.
Decoding stops at the first character that is not well-formed; the error covers
the bytes of it that could have begun a character, and at least one.
-/
import Asm256.Byte.Numeral

namespace Asm256.Utf8

/-- Why bytes are no text: those from `position` on form no character. -/
structure Error where
  bytes : List UInt8
  position : Nat
  reason : String
  deriving DecidableEq, Repr

/-- The wording of the error. -/
def Error.message (e : Error) : String :=
  let range := match e.bytes with
    | [b] => s!"byte {Byte.hex b.toNat} in position {e.position}"
    | bytes => s!"bytes in position {e.position}-{e.position + bytes.length - 1}"
  s!"'utf-8' codec can't decode {range}: {e.reason}"

/-- The inclusive ranges of the bytes that follow a first byte. -/
def following? (first : UInt8) : Option (List (UInt8 × UInt8)) :=
  if first < 0x80 then some []
  else if first < 0xC2 then none
  else if first < 0xE0 then some [(0x80, 0xBF)]
  else if first = 0xE0 then some [(0xA0, 0xBF), (0x80, 0xBF)]
  else if first = 0xED then some [(0x80, 0x9F), (0x80, 0xBF)]
  else if first < 0xF0 then some [(0x80, 0xBF), (0x80, 0xBF)]
  else if first = 0xF0 then some [(0x90, 0xBF), (0x80, 0xBF), (0x80, 0xBF)]
  else if first < 0xF4 then some [(0x80, 0xBF), (0x80, 0xBF), (0x80, 0xBF)]
  else if first = 0xF4 then some [(0x80, 0x8F), (0x80, 0xBF), (0x80, 0xBF)]
  else none

/-- The bytes at the front that lie in the ranges, one for each. -/
def matching : List (UInt8 × UInt8) → List UInt8 → List UInt8
  | (lo, hi) :: ranges, b :: bytes => if lo ≤ b && b ≤ hi then b :: matching ranges bytes else []
  | _, _ => []

/-- The character of a first byte and the bytes that follow it, six bits from each of these. -/
def character (first : UInt8) (others : List UInt8) : Char :=
  let high := match others.length with
    | 0 => first.toNat
    | n => first.toNat % Nat.pow 2 (6 - n)
  Char.ofNat (others.foldl (fun code b => 64 * code + b.toNat % 64) high)

/-- The text of bytes that stand at `position`. -/
def decodeFrom (position : Nat) : List UInt8 → Except Error (List Char)
  | [] => .ok []
  | first :: rest =>
      match following? first with
      | none => .error ⟨[first], position, "invalid start byte"⟩
      | some ranges =>
          let others := matching ranges rest
          if others.length = ranges.length then
            match decodeFrom (position + 1 + others.length) (rest.drop others.length) with
            | .error e => .error e
            | .ok cs => .ok (character first others :: cs)
          else if others.length = rest.length then
            .error ⟨first :: others, position, "unexpected end of data"⟩
          else .error ⟨first :: others, position, "invalid continuation byte"⟩
termination_by bytes => bytes.length
decreasing_by simp only [List.length_drop, List.length_cons]; omega

/-- The text of bytes. -/
def decode (bytes : List UInt8) : Except Error (List Char) := decodeFrom 0 bytes

/-- The bytes of a text. -/
def encode (s : String) : List UInt8 := s.toUTF8.toList

end Asm256.Utf8
