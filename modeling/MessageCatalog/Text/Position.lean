import MessageCatalog.Text.Blank
import MessageCatalog.Text.Width
/-! Lines and display columns of the byte offsets in a text. -/

namespace MessageCatalog.Text

structure Position where
  line : Nat
  column : Nat
  lineText : List Char
  deriving Repr, DecidableEq

/-- Whether `c`, followed by `rest`, ends a line: a line feed, or a carriage return that no line
feed follows. -/
def endsLine (c : Char) (rest : List Char) : Bool :=
  c = '\n' || (c = '\r' && rest.head? != some '\n')

def lineAt (rest : List Char) : List Char := rest.takeWhile (· != '\n')

/-- Walk to `offset`. The running values are those of the first character of `rest`, and `start`
is the text from the beginning of its line on. -/
def positionFrom (offset line column byte : Nat) (start : List Char) : List Char → Position
  | [] => ⟨line, column, lineAt start⟩
  | c :: r =>
    if offset ≤ byte then ⟨line, column, lineAt start⟩
    else if endsLine c r then positionFrom offset (line + 1) 1 (byte + c.utf8Size) r r
    else positionFrom offset line (column + columnWidth c) (byte + c.utf8Size) start r

def position (text : List Char) (offset : Nat) : Position :=
  positionFrom offset 1 1 0 text text

end MessageCatalog.Text
