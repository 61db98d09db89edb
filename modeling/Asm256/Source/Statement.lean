/-
Statements: a mnemonic with its operands.

Tokens form statements as follows.  Between statements, line feeds, semicolons
and label definitions mean nothing.  A statement is a mnemonic, then operands
with commas between them, then a line feed, a semicolon or the end of the input.
`Statement.parseFrom` reads the tokens one by one and stops at the first that
cannot be right.
-/
import Asm256.Source.Error

namespace Asm256

/-- A mnemonic with its operands. -/
structure Statement where
  mnemonic : Spelled Mnemonic
  operands : List (Spelled Operand) := []
  deriving DecidableEq, Repr

namespace Statement

/-- The kinds of the operands. -/
def kinds (s : Statement) : List OperandKind := s.operands.map fun o => o.value.kind

/-- The bytes of code for a statement: one for the mnemonic and one for each operand. -/
def size (s : Statement) : Nat := 1 + s.operands.length

/-- The statement with one more operand. -/
def push (s : Statement) (o : Spelled Operand) : Statement := { s with operands := s.operands ++ [o] }

/-- Where a reader of tokens stands: between statements, or in one that it has read so far. -/
inductive Place
  | between
  | afterMnemonic (s : Statement)
  | afterOperand (s : Statement)
  | afterComma (s : Statement)
  deriving DecidableEq, Repr

/-- The error when the tokens run out. -/
def Place.exhausted : Place → Option ParseError
  | .between => none
  | .afterMnemonic _ | .afterOperand _ => some (.expectedOneOf [.semicolon, .newline] none)
  | .afterComma _ => some (.expectedOperand none)

/-- What a token does to a reader: it moves on, maybe done with a statement, or has a token that
does not fit.  The end of the input leaves it between statements. -/
def Place.step (place : Place) (t : Token) : Except ParseError (Option Statement × Place) :=
  match place, t.value with
  | .between, .mnemonic m => .ok (none, .afterMnemonic { mnemonic := ⟨m, t.lexeme, t.pos⟩ })
  | .between, .newline | .between, .semicolon | .between, .labelDefinition
  | .between, .endOfInput => .ok (none, .between)
  | .between, .operand _ | .between, .comma => .error (.expectedMnemonic (some t))
  | .afterMnemonic s, .operand o => .ok (none, .afterOperand (s.push ⟨o, t.lexeme, t.pos⟩))
  | .afterMnemonic _, .comma => .error (.expectedOperand (some t))
  | .afterOperand _, .operand _ => .error (.expectedOneOf [.comma] (some t))
  | .afterOperand s, .comma => .ok (none, .afterComma s)
  | .afterMnemonic s, .newline | .afterMnemonic s, .semicolon | .afterMnemonic s, .endOfInput
  | .afterOperand s, .newline | .afterOperand s, .semicolon | .afterOperand s, .endOfInput =>
      .ok (some s, .between)
  | .afterMnemonic _, .mnemonic _ | .afterMnemonic _, .labelDefinition
  | .afterOperand _, .mnemonic _ | .afterOperand _, .labelDefinition =>
      .error (.expectedOneOf [.semicolon, .newline] (some t))
  | .afterComma s, .operand o => .ok (none, .afterOperand (s.push ⟨o, t.lexeme, t.pos⟩))
  | .afterComma _, _ => .error (.expectedOperand (some t))

/-- The statements that a reader at `place` finds.  It reads no further than the end of the input. -/
def parseFrom (place : Place) : List Token → Except ParseError (List Statement)
  | [] =>
      match place.exhausted with
      | some e => .error e
      | none => .ok []
  | t :: ts =>
      match place.step t with
      | .error e => .error e
      | .ok (done, next) =>
          if t.value = .endOfInput then .ok done.toList
          else match parseFrom next ts with
            | .error e => .error e
            | .ok more => .ok (done.toList ++ more)

/-- The statements of a sequence of tokens. -/
def parse (tokens : List Token) : Except ParseError (List Statement) := parseFrom .between tokens

end Statement

end Asm256
