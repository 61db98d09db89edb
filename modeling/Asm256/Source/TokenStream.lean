/-
Token streams: a source text as tokens, with its labels and the size of its code.

A text is first cut into pieces (`Piece.cut`), whatever its tab width; the
pieces are then counted up from left to right (`Tally.add`).  Each mnemonic and
each operand stands for one byte, a label for the number of bytes before it.
A label is defined once, and only where a statement can start.
-/
import Asm256.Source.Item
import Asm256.Source.Label

namespace Asm256

/-- An item of a text with its characters. -/
structure Piece where
  item : Item
  text : List Char
  deriving DecidableEq, Repr

/-- The pieces of a text, and why the text behind them is no item unless they are all of it. -/
def Piece.cut : List Char → List Piece × Option Refusal
  | [] => ([], none)
  | c :: cs =>
      match _ : Item.read c cs with
      | .error e => ([], some e)
      | .ok r =>
          let (pieces, refusal) := Piece.cut r.rest
          (⟨r.item, r.text⟩ :: pieces, refusal)
termination_by cs => cs.length
decreasing_by exact Item.rest_length_lt ‹_›

/-- The tokens of a text, its labels, and the bytes of its code. -/
structure TokenStream where
  tokens : List Token
  labels : LabelTable
  byteCount : Nat
  deriving DecidableEq, Repr

/-- Why a text has no token stream: an error and its place, or a numeral too long to convert. -/
inductive ScanError
  | lexical (e : LexError) (pos : Position)
  | tooLong (e : Decimal.TooLong)
  deriving DecidableEq, Repr

/-- What the front of a text amounts to.  The tokens and the labels stand newest first. -/
structure Tally where
  tokens : List Token := []
  labels : LabelTable := []
  byteCount : Nat := 0
  pos : Position := .start
  deriving DecidableEq, Repr

namespace Tally

/-- A statement can start here: only label definitions stand after the last delimiter, or at all. -/
def atBoundary (t : Tally) : Bool :=
  match t.tokens.find? fun token => token.value != .labelDefinition with
  | none => true
  | some token => token.value.isDelimiter

/-- The tally with one more token, which stands at the end of the text so far. -/
def push (t : Tally) (word : Word) (text : List Char) : Tally :=
  { t with tokens := ⟨word, String.ofList text, t.pos⟩ :: t.tokens,
           byteCount := t.byteCount + word.size }

/-- The tally with the item of a piece, which stands at the end of the text so far. -/
def addItem (t : Tally) (p : Piece) : Except LexError Tally :=
  match p.item with
  | .gap => .ok t
  | .token word =>
      if memorySize < t.byteCount + word.size then .error .programTooLarge
      else .ok (t.push word p.text)
  | .definition name =>
      match t.labels.find? name with
      | some first => .error (.duplicateLabel name (some first.pos.line))
      | none =>
          if t.atBoundary then
            .ok { t.push .labelDefinition p.text with
                    labels := ⟨name, t.byteCount, t.pos⟩ :: t.labels }
          else .error (.misplacedLabel name)

/-- The tally with one more piece of text. -/
def add (tabWidth : Nat) (t : Tally) (p : Piece) : Except ScanError Tally :=
  match t.addItem p with
  | .error e => .error (.lexical e t.pos)
  | .ok t => .ok { t with pos := t.pos.after tabWidth p.text }

/-- The token stream of a text that ends here. -/
def finish (t : Tally) : TokenStream where
  tokens := (⟨.endOfInput, "", t.pos⟩ :: t.tokens).reverse
  labels := t.labels.reverse
  byteCount := t.byteCount

/-- The error for text that is no item and stands here. -/
def refuse (tabWidth : Nat) (t : Tally) : Refusal → ScanError
  | .error e skipped => .lexical e (t.pos.after tabWidth skipped)
  | .tooLong e => .tooLong e

end Tally

/-- The token stream of a text. -/
def TokenStream.ofText (tabWidth : Nat) (text : List Char) : Except ScanError TokenStream :=
  let (pieces, refusal) := Piece.cut text
  match pieces.foldlM (Tally.add tabWidth) {}, refusal with
  | .error e, _ => .error e
  | .ok t, some r => .error (t.refuse tabWidth r)
  | .ok t, none => .ok t.finish

end Asm256
