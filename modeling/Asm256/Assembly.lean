/-
Assembly: from a source text to an image.

The text is read as a token stream, the tokens as statements, and these are
encoded.  The byte count of the token stream and the size of the image are
compared at the end; that they differ, or that the image overflows, would be an
error of the assembler (`InternalError`).
-/
import Asm256.Image.Encoding
import Asm256.Source.TokenStream

namespace Asm256

/-- A failure of the assembler itself. -/
inductive InternalError
  | imageFull
  | sizeMismatch (counted written : Nat)
  deriving DecidableEq, Repr

/-- The wording of the error. -/
def InternalError.message : InternalError → String
  | imageFull => "El programa no cabe en memoria; esto debió detectarse al tokenizar"
  | sizeMismatch counted written =>
      s!"Tamaño inconsistente: lexer {counted}, codificador {written}"

/-- Why a text has no assembly: an error of the program, a numeral too long to convert, or a failure
of the assembler. -/
inductive AssemblyError
  | source (e : SourceError)
  | tooLong (e : Decimal.TooLong)
  | internal (e : InternalError)
  deriving DecidableEq, Repr

namespace AssemblyError

/-- An error in reading a text, as an error in assembling it. -/
def ofScan : ScanError → AssemblyError
  | .lexical e pos => .source (.lexical e pos)
  | .tooLong e => .tooLong e

/-- An error in the order of tokens, as an error in assembling them. -/
def ofParse (e : ParseError) : AssemblyError := .source (.parse e)

/-- An error in encoding statements, as an error in assembling a text. -/
def ofEncode : EncodeError → AssemblyError
  | .statement e => .source (.statement e)
  | .full => .internal .imageFull

end AssemblyError

/-- An assembled program: its image, its labels and its statements. -/
structure Assembly where
  image : Image
  labels : LabelTable
  statements : List Statement

/-- The token stream of a text. -/
def scanText (tabWidth : Nat) (text : List Char) : Except AssemblyError TokenStream :=
  (TokenStream.ofText tabWidth text).mapError .ofScan

/-- The statements of tokens. -/
def parseTokens (tokens : List Token) : Except AssemblyError (List Statement) :=
  (Statement.parse tokens).mapError .ofParse

/-- The image of statements. -/
def encodeStatements (tree : SignatureTree) (labels : LabelTable) (statements : List Statement) :
    Except AssemblyError Image :=
  (Image.encode tree labels statements).mapError .ofEncode

/-- The image of tokens, with labels from a table. -/
def assembleTokens (tree : SignatureTree) (labels : LabelTable) (tokens : List Token) :
    Except AssemblyError Image := do
  let statements ← parseTokens tokens
  encodeStatements tree labels statements

/-- Assembles a text. -/
def assemble (tree : SignatureTree) (tabWidth : Nat) (text : List Char) :
    Except AssemblyError Assembly := do
  let stream ← scanText tabWidth text
  let statements ← parseTokens stream.tokens
  let image ← encodeStatements tree stream.labels statements
  if image.codeSize ≠ stream.byteCount then
    throw (.internal (.sizeMismatch stream.byteCount image.codeSize))
  return ⟨image, stream.labels, statements⟩

end Asm256
