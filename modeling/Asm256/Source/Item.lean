/-
The item at the front of a text.

An item is a gap (one blank or one comment), a token, or the definition of a
label.  `Item.read` reads the longest item that the first characters allow:
* digits are a reference to memory, `#` and digits a literal, `R` and digits a register;
* any other run of letters is a mnemonic, a label definition if a colon follows, or a label;
* `//` opens a comment up to the end of the line, `/*` one up to the next `*/`.

What is read and what is left make up the text (`Item.text_append_rest`), and
something is always read (`Item.text_ne_nil`).
-/
import Asm256.Machine.Dimension
import Asm256.Source.Error
import Asm256.Text.Blank
import Asm256.Text.Decimal

namespace Asm256

/-- What the front of a text can be. -/
inductive Item
  | gap
  | token (word : Word)
  | definition (name : String)
  deriving DecidableEq, Repr

/-- Why the front of a text is no item.  An error is placed behind the characters `skipped`;
a numeral too long to convert is no error of the program. -/
inductive Refusal
  | error (e : LexError) (skipped : List Char)
  | tooLong (e : Decimal.TooLong)
  deriving DecidableEq, Repr

/-- An item with the characters it takes and those it leaves. -/
structure Reading where
  item : Item
  text : List Char
  rest : List Char
  deriving DecidableEq, Repr

namespace Item

/-- Names are made of the letters of the Latin alphabet and underscores. -/
def isNameChar (c : Char) : Bool := ('a' ≤ c && c ≤ 'z') || ('A' ≤ c && c ≤ 'Z') || c == '_'

/-- The characters of a block comment up to its end, and what follows. -/
def blockComment? : List Char → Option (List Char × List Char)
  | '*' :: '/' :: rest => some (['*', '/'], rest)
  | c :: rest => (blockComment? rest).map fun (text, rest) => (c :: text, rest)
  | [] => none

/-- The number of a digit run, which has to be a byte.  The run stands behind `skipped`. -/
def readNumber (skipped digits : List Char) : Except Refusal Nat :=
  match Decimal.read digits with
  | .error e => .error (.tooLong e)
  | .ok n =>
      if n < 256 then .ok n
      else .error (.error (.valueTooLarge (String.ofList digits)) skipped)

/-- The comment that a slash opens. -/
def readComment (cs : List Char) : Except Refusal Reading :=
  match cs with
  | '/' :: cs =>
      .ok ⟨.gap, '/' :: '/' :: cs.takeWhile (· != '\n'), cs.dropWhile (· != '\n')⟩
  | '*' :: cs =>
      match blockComment? cs with
      | some (text, rest) => .ok ⟨.gap, '/' :: '*' :: text, rest⟩
      | none => .error (.error .unterminatedComment [])
  | _ => .error (.error .invalidComment [])

/-- The reference to memory at the front of a text that starts with a digit. -/
def readMemory (cs : List Char) : Except Refusal Reading :=
  let digits := cs.takeWhile Decimal.isDigit
  match readNumber [] digits with
  | .error e => .error e
  | .ok n => .ok ⟨.token (.operand (.memory n)), digits, cs.dropWhile Decimal.isDigit⟩

/-- The literal that a number sign opens. -/
def readLiteral (cs : List Char) : Except Refusal Reading :=
  let digits := cs.takeWhile Decimal.isDigit
  if digits.isEmpty then .error (.error .missingLiteralNumber [])
  else match readNumber ['#'] digits with
    | .error e => .error e
    | .ok n => .ok ⟨.token (.operand (.literal n)), '#' :: digits, cs.dropWhile Decimal.isDigit⟩

/-- The register that a lone `R` opens. -/
def readRegister (cs : List Char) : Except Refusal Reading :=
  let digits := cs.takeWhile Decimal.isDigit
  if digits.isEmpty then .error (.error .missingRegisterNumber [])
  else match readNumber ['R'] digits with
    | .error e => .error e
    | .ok n =>
        if n < registerCount then
          .ok ⟨.token (.operand (.register n)), 'R' :: digits, cs.dropWhile Decimal.isDigit⟩
        else .error (.error (.registerOutOfRange n registerCount) [])

/-- The item that a name stands for, in front of the rest. -/
def readName (name rest : List Char) : Except Refusal Reading :=
  let spelling := String.ofList name
  match Mnemonic.ofName? spelling with
  | some m => .ok ⟨.token (.mnemonic m), name, rest⟩
  | none =>
      match rest with
      | ':' :: rest => .ok ⟨.definition spelling, name ++ [':'], rest⟩
      | _ => .ok ⟨.token (.operand (.label spelling)), name, rest⟩

/-- The item at the front of a text that starts with a character of names. -/
def readWord (cs : List Char) : Except Refusal Reading :=
  let name := cs.takeWhile isNameChar
  let rest := cs.dropWhile isNameChar
  if name = ['R'] then readRegister rest else readName name rest

/-- The item at the front of the text `c :: cs`. -/
def read (c : Char) (cs : List Char) : Except Refusal Reading :=
  if c = '\n' then .ok ⟨.token .newline, [c], cs⟩
  else if Text.isBlank c then .ok ⟨.gap, [c], cs⟩
  else if c = ';' then .ok ⟨.token .semicolon, [c], cs⟩
  else if c = ',' then .ok ⟨.token .comma, [c], cs⟩
  else if c = '/' then readComment cs
  else if Decimal.isDigit c then readMemory (c :: cs)
  else if c = '#' then readLiteral cs
  else if isNameChar c then readWord (c :: cs)
  else .error (.error (.unexpectedCharacter c) [])

/-! ### What is read and what is left -/

theorem blockComment?_append {cs text rest : List Char} (h : blockComment? cs = some (text, rest)) :
    text ++ rest = cs := by
  fun_induction blockComment? cs generalizing text with
  | case1 rest' => cases h; rfl
  | case2 c cs _ ih =>
      obtain ⟨⟨t, r⟩, ht, he⟩ := Option.map_eq_some_iff.1 h
      cases he
      rw [List.cons_append, ih ht]
  | case3 => cases h

theorem readComment_append {cs : List Char} {r : Reading} (h : readComment cs = .ok r) :
    r.text ++ r.rest = '/' :: cs := by
  unfold readComment at h
  split at h
  · cases h; simp [List.takeWhile_append_dropWhile]
  · split at h
    · next heq => cases h; simpa using blockComment?_append heq
    · cases h
  · cases h

theorem readMemory_append {cs : List Char} {r : Reading} (h : readMemory cs = .ok r) :
    r.text ++ r.rest = cs := by
  simp only [readMemory] at h
  split at h
  · cases h
  · cases h; exact List.takeWhile_append_dropWhile

theorem readLiteral_append {cs : List Char} {r : Reading} (h : readLiteral cs = .ok r) :
    r.text ++ r.rest = '#' :: cs := by
  simp only [readLiteral] at h
  split at h
  · cases h
  · split at h
    · cases h
    · cases h; simp [List.takeWhile_append_dropWhile]

theorem readRegister_append {cs : List Char} {r : Reading} (h : readRegister cs = .ok r) :
    r.text ++ r.rest = 'R' :: cs := by
  simp only [readRegister] at h
  split at h
  · cases h
  · split at h
    · cases h
    · split at h
      · cases h; simp [List.takeWhile_append_dropWhile]
      · cases h

theorem readName_append {name rest : List Char} {r : Reading} (h : readName name rest = .ok r) :
    r.text ++ r.rest = name ++ rest := by
  simp only [readName] at h
  split at h
  · cases h; rfl
  · split at h <;> cases h <;> simp

theorem readWord_append {cs : List Char} {r : Reading} (h : readWord cs = .ok r) :
    r.text ++ r.rest = cs := by
  simp only [readWord] at h
  split at h
  · next heq =>
      have hcs : cs.takeWhile isNameChar ++ cs.dropWhile isNameChar = cs :=
        List.takeWhile_append_dropWhile
      rw [readRegister_append h, ← List.singleton_append, ← heq, hcs]
  · rw [readName_append h]; exact List.takeWhile_append_dropWhile

/-- What is read and what is left make up the text. -/
theorem text_append_rest {c : Char} {cs : List Char} {r : Reading} (h : read c cs = .ok r) :
    r.text ++ r.rest = c :: cs := by
  simp only [read] at h
  split at h
  · cases h; rfl
  split at h
  · cases h; rfl
  split at h
  · cases h; rfl
  split at h
  · cases h; rfl
  split at h
  · next hc => rw [hc]; exact readComment_append h
  split at h
  · exact readMemory_append h
  split at h
  · next hc => rw [hc]; exact readLiteral_append h
  split at h
  · exact readWord_append h
  · cases h

/-! ### Something is always read -/

theorem readComment_ne_nil {cs : List Char} {r : Reading} (h : readComment cs = .ok r) :
    r.text ≠ [] := by
  unfold readComment at h
  split at h
  · cases h; simp
  · split at h
    · cases h; simp
    · cases h
  · cases h

theorem readMemory_ne_nil {c : Char} {cs : List Char} {r : Reading} (hc : Decimal.isDigit c)
    (h : readMemory (c :: cs) = .ok r) : r.text ≠ [] := by
  simp only [readMemory] at h
  split at h
  · cases h
  · cases h; simp [hc]

theorem readLiteral_ne_nil {cs : List Char} {r : Reading} (h : readLiteral cs = .ok r) :
    r.text ≠ [] := by
  simp only [readLiteral] at h
  split at h
  · cases h
  · split at h
    · cases h
    · cases h; simp

theorem readRegister_ne_nil {cs : List Char} {r : Reading} (h : readRegister cs = .ok r) :
    r.text ≠ [] := by
  simp only [readRegister] at h
  split at h
  · cases h
  · split at h
    · cases h
    · split at h
      · cases h; simp
      · cases h

theorem readName_ne_nil {name rest : List Char} {r : Reading} (hn : name ≠ [])
    (h : readName name rest = .ok r) : r.text ≠ [] := by
  simp only [readName] at h
  split at h
  · cases h; exact hn
  · split at h
    · cases h; simp
    · cases h; exact hn

theorem readWord_ne_nil {c : Char} {cs : List Char} {r : Reading} (hc : isNameChar c)
    (h : readWord (c :: cs) = .ok r) : r.text ≠ [] := by
  simp only [readWord] at h
  split at h
  · exact readRegister_ne_nil h
  · exact readName_ne_nil (by simp [hc]) h

/-- Something is always read. -/
theorem text_ne_nil {c : Char} {cs : List Char} {r : Reading} (h : read c cs = .ok r) :
    r.text ≠ [] := by
  simp only [read] at h
  split at h
  · cases h; simp
  split at h
  · cases h; simp
  split at h
  · cases h; simp
  split at h
  · cases h; simp
  split at h
  · exact readComment_ne_nil h
  split at h
  · next hc => exact readMemory_ne_nil hc h
  split at h
  · exact readLiteral_ne_nil h
  split at h
  · next hc => exact readWord_ne_nil hc h
  · cases h

/-- Less is left than there was. -/
theorem rest_length_lt {c : Char} {cs : List Char} {r : Reading} (h : read c cs = .ok r) :
    r.rest.length < (c :: cs).length := by
  rw [← text_append_rest h, List.length_append]
  have := List.length_pos_iff.2 (text_ne_nil h)
  omega

end Item

end Asm256
