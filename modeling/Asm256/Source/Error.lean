/-
What can be wrong with a source text.

`LexError` is about the characters, `ParseError` about the order of the tokens
and `StatementError` about single statements: operands that fit no form of the
mnemonic, and labels that are nowhere defined.  Each error has a wording and a
place, which `diagnostic` puts together; `SourceError` is any of them.
-/
import Asm256.Diagnostic
import Asm256.Instruction.SignatureTree
import Asm256.Source.Token

namespace Asm256

/-- Why a text cannot be cut into tokens. -/
inductive LexError
  | programTooLarge
  | valueTooLarge (digits : String)
  | missingRegisterNumber
  | missingLiteralNumber
  | registerOutOfRange (number count : Int)
  | misplacedLabel (name : String)
  | duplicateLabel (name : String) (firstLine : Option Int)
  | unterminatedComment
  | invalidComment
  | unexpectedCharacter (char : Char)
  deriving DecidableEq, Repr

namespace LexError

/-- The wording of the error. -/
def message : LexError → String
  | programTooLarge => "El programa excede el límite de memoria (256 bytes)"
  | valueTooLarge digits => s!"Valor '{digits}' demasiado grande (máximo 255)"
  | missingRegisterNumber => "Falta el número tras el indicador de registro 'R'"
  | missingLiteralNumber => "Falta el número tras el indicador de literal '#'"
  | registerOutOfRange n count => s!"Registro inválido 'R{n}' (debe estar en el rango 0-{count - 1})"
  | misplacedLabel name => s!"Definición de la etiqueta '{name}' en posición inválida"
  | duplicateLabel name _ => s!"La etiqueta '{name}' ya está definida"
  | unterminatedComment => "Comentario de bloque sin cerrar"
  | invalidComment => "Se esperaba '//' o '/*' para un comentario, no '/'"
  | unexpectedCharacter c => s!"Carácter inesperado: '{c}'"

/-- Advice on the error. -/
def hint : LexError → Option String
  | misplacedLabel _ =>
      some "las etiquetas solo pueden aparecer tras un delimitador de línea (salto de línea o ';')"
  | duplicateLabel _ firstLine => firstLine.map fun n => s!"definida antes en la línea {n}"
  | unterminatedComment => some "falta '*/'"
  | _ => none

/-- The report on the error, without a place. -/
def diagnostic (e : LexError) : Diagnostic := { message := e.message, hint := e.hint }

end LexError

/-- Why a sequence of tokens is not a sequence of statements.  The token is the first that does
not fit; there is none where the tokens run out. -/
inductive ParseError
  | expectedMnemonic (got : Option Token)
  | expectedOperand (got : Option Token)
  | expectedOneOf (candidates : List TokenClass) (got : Option Token)
  deriving DecidableEq, Repr

namespace ParseError

/-- The token that does not fit. -/
def got : ParseError → Option Token
  | expectedMnemonic t | expectedOperand t | expectedOneOf _ t => t

/-- What would have fitted, in words. -/
def expectation : ParseError → String
  | expectedMnemonic _ => "un mnemónico"
  | expectedOperand _ => "un operando"
  | expectedOneOf candidates _ => " o ".intercalate (candidates.map TokenClass.text)

/-- The wording of the error. -/
def message (e : ParseError) : String :=
  s!"Se esperaba {e.expectation}, se encontró {Token.shownOrEnd e.got}"

/-- The report on the error, placed at the token. -/
def diagnostic (e : ParseError) : Diagnostic :=
  let d : Diagnostic := { message := e.message }
  (e.got.map fun t => d.located t.pos).getD d

end ParseError

/-- Why a statement has no encoding. -/
inductive StatementError
  | undefinedLabel (token : Token)
  | invalidSignature (pos : Position) (mnemonic : Mnemonic) (received : List OperandKind)
      (valid : List Form)
  deriving DecidableEq, Repr

namespace StatementError

/-- A list of operand kinds in words. -/
def kindsText (kinds : List OperandKind) : String :=
  if kinds.isEmpty then "(sin operandos)" else ", ".intercalate (kinds.map OperandKind.text)

/-- The wording of the error. -/
def message : StatementError → String
  | undefinedLabel token => s!"No existe ninguna etiqueta con nombre {token.shown}"
  | invalidSignature _ m received valid =>
      let options := "\n".intercalate (valid.map fun f => s!"\t• {m.name} {kindsText f.2}")
      s!"Operandos inválidos para {m.name}: se recibió {kindsText received}; formas válidas:\n{options}"

/-- The place of the error: the label, or the mnemonic. -/
def pos : StatementError → Position
  | undefinedLabel token => token.pos
  | invalidSignature pos _ _ _ => pos

/-- The report on the error. -/
def diagnostic (e : StatementError) : Diagnostic :=
  let d : Diagnostic := { message := e.message }
  d.located e.pos

end StatementError

/-- What is wrong with a program. -/
inductive SourceError
  | lexical (e : LexError) (pos : Position)
  | parse (e : ParseError)
  | statement (e : StatementError)
  deriving DecidableEq, Repr

/-- The report on the error, with its place. -/
def SourceError.diagnostic : SourceError → Diagnostic
  | lexical e pos => e.diagnostic.located pos
  | parse e => e.diagnostic
  | statement e => e.diagnostic

end Asm256
