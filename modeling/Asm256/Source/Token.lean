/-
Tokens: the words of a source text, each with its spelling and its place.

`Operand` is what an operand word denotes; its kind alone chooses the operation
(`Operand.kind`), and its value is used when the statement is encoded.  A label
is known by name until then.
-/
import Asm256.Instruction.Mnemonic
import Asm256.Instruction.OperandKind
import Asm256.Source.Position

namespace Asm256

/-- What an operand word denotes. -/
inductive Operand
  | register (number : Int)
  | memory (offset : Int)
  | label (name : String)
  | literal (value : Int)
  deriving DecidableEq, Repr

namespace Operand

/-- The kind of an operand. -/
def kind : Operand → OperandKind
  | register _ => .register
  | memory _ => .memory
  | label _ => .label
  | literal _ => .literal

/-- The number an operand carries; a label has none before it is resolved. -/
def value? : Operand → Option Int
  | register n | memory n | literal n => some n
  | label _ => none

/-- An operand in words. -/
def describe : Operand → String
  | register n => s!"R{n} ({OperandKind.register.text})"
  | memory n => s!"{n} ({OperandKind.memory.text})"
  | label _ => OperandKind.label.text
  | literal n => s!"#{n} ({OperandKind.literal.text})"

end Operand

/-- A value read from a word of the source, with the spelling and the place of the word. -/
structure Spelled (α : Type) where
  value : α
  lexeme : String
  pos : Position
  deriving DecidableEq, Repr

/-- The classes of tokens. -/
inductive TokenClass
  | mnemonic | operand | comma | semicolon | newline | labelDefinition | endOfInput
  deriving DecidableEq, Repr

namespace TokenClass

/-- All classes. -/
def all : List TokenClass :=
  [mnemonic, operand, comma, semicolon, newline, labelDefinition, endOfInput]

/-- The class in words. -/
def text : TokenClass → String
  | mnemonic => "opcode"
  | operand => "operando"
  | comma => "coma"
  | semicolon => "punto y coma"
  | newline => "salto de línea"
  | labelDefinition => "definición de etiqueta"
  | endOfInput => "fin de fichero"

end TokenClass

/-- What a token says. -/
inductive Word
  | mnemonic (m : Mnemonic)
  | operand (o : Operand)
  | comma
  | semicolon
  | newline
  | labelDefinition
  | endOfInput
  deriving DecidableEq, Repr

namespace Word

/-- The class of a word. -/
def tokenClass : Word → TokenClass
  | mnemonic _ => .mnemonic
  | operand _ => .operand
  | comma => .comma
  | semicolon => .semicolon
  | newline => .newline
  | labelDefinition => .labelDefinition
  | endOfInput => .endOfInput

/-- The word ends a statement: a line feed or a semicolon. -/
def isDelimiter : Word → Bool
  | newline | semicolon => true
  | _ => false

/-- The bytes of code a word stands for: one for each mnemonic and each operand. -/
def size : Word → Nat
  | mnemonic _ | operand _ => 1
  | _ => 0

end Word

/-- A word with its spelling and its place. -/
abbrev Token := Spelled Word

/-- A token as messages show it: the spelling, or the class where that is not visible. -/
def Token.shown (t : Token) : String :=
  match t.value with
  | .newline | .endOfInput => s!"'{t.value.tokenClass.text}'"
  | _ => s!"'{t.lexeme}'"

/-- What messages show for a token, or for the end when there is none. -/
def Token.shownOrEnd (t : Option Token) : String :=
  (t.map Token.shown).getD s!"'{TokenClass.endOfInput.text}'"

/-- The operand as a token. -/
def Spelled.toToken (o : Spelled Operand) : Token := ⟨.operand o.value, o.lexeme, o.pos⟩

end Asm256
