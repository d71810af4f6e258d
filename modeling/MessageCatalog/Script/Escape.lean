import MessageCatalog.Script.Identifier
import MessageCatalog.Text.CodePoint
/-! Escape sequences, and the text of string literals and templates. -/

namespace MessageCatalog.Script

open Text (isHexDigit hexNumber fixedHex?)

def unicodeEscape? (cs : List Char) : Option (Nat × Nat) :=
  match cs with
  | '\x7b' :: r =>
    let ds := r.takeWhile isHexDigit
    let value := hexNumber ds
    if !ds.isEmpty && (r.drop ds.length).head? = some '\x7d' && value ≤ 0x10ffff then
      some (value, ds.length + 2)
    else none
  | cs => (fixedHex? 4 cs).map fun value => (value, 4)

def isLineEnd (c : Char) : Bool :=
  c = '\n' || c = '\r' || c.toNat = 0x2028 || c.toNat = 0x2029

def isOctalDigit (c : Char) : Bool := '0' ≤ c && c ≤ '7'

def octalDigits (cs : List Char) : List Char :=
  let ds := (cs.take 3).takeWhile isOctalDigit
  match ds with
  | d :: _ => if '3' < d then ds.take 2 else ds
  | [] => []

/-- The code points that the escape after a backslash stands for, and how many characters write
it. Octal escapes other than `\0` are for string literals only. -/
def escape? (octal : Bool) (cs : List Char) : Option (List Nat × Nat) :=
  match cs with
  | [] => none
  | 'n' :: _ => some ([10], 1)
  | 't' :: _ => some ([9], 1)
  | 'r' :: _ => some ([13], 1)
  | 'b' :: _ => some ([8], 1)
  | 'f' :: _ => some ([12], 1)
  | 'v' :: _ => some ([11], 1)
  | 'x' :: r => (fixedHex? 2 r).map fun value => ([value], 3)
  | 'u' :: r => (unicodeEscape? r).map fun (value, n) => ([value], n + 1)
  | '\r' :: '\n' :: _ => some ([], 2)
  | c :: r =>
    if isLineEnd c then some ([], 1)
    else if isOctalDigit c then
      if c = '0' && !(r.head?.any Char.isDigit) then some ([0], 1)
      else if octal then
        let ds := octalDigits cs
        some ([ds.foldl (fun n d => n * 8 + (d.toNat - 48)) 0], ds.length)
      else none
    else if c.isDigit && !octal then none
    else some ([c.toNat], 1)

structure Literal where
  points : List Nat
  length : Nat
  deriving Repr, DecidableEq

/-- The rest of a string literal after its opening quote. A line end ends the literal like its
closing quote, but is no part of it. There is no literal if an escape is wrong. -/
def stringLiteral? : Nat → Char → List Char → Option Literal
  | 0, _, _ => some ⟨[], 0⟩
  | _, _, [] => some ⟨[], 0⟩
  | bound + 1, quote, c :: r =>
    if c = quote then some ⟨[], 1⟩
    else if c = '\n' || c = '\r' then some ⟨[], 0⟩
    else if c = '\\' then
      match escape? true r with
      | none => none
      | some (points, n) =>
        (stringLiteral? bound quote (r.drop n)).map fun l =>
          ⟨points ++ l.points, l.length + n + 1⟩
    else (stringLiteral? bound quote r).map fun l => ⟨c.toNat :: l.points, l.length + 1⟩

inductive PieceEnd where
  | closed
  | substitution
  deriving Repr, DecidableEq

structure Piece where
  points : List Nat
  badEscape : Option Nat
  length : Nat
  ending : PieceEnd
  deriving Repr, DecidableEq

def templatePiece? : Nat → List Char → Option Piece
  | 0, _ => none
  | _, [] => none
  | _, '\x60' :: _ => some ⟨[], none, 1, .closed⟩
  | _, '$' :: '\x7b' :: _ => some ⟨[], none, 2, .substitution⟩
  | bound + 1, '\r' :: '\n' :: r =>
    (templatePiece? bound r).map fun p =>
      { p with
        points := 10 :: p.points
        badEscape := p.badEscape.map (· + 2)
        length := p.length + 2 }
  | bound + 1, c :: r =>
    let (points, bad, n) :=
      if c = '\\' then
        match escape? false r with
        | some (points, n) => (points, false, n + 1)
        | none => ([], true, if r.isEmpty then 1 else 2)
      else if c = '\r' then ([10], false, 1)
      else ([c.toNat], false, 1)
    (templatePiece? bound ((c :: r).drop n)).map fun p =>
      { p with
        points := points ++ p.points
        badEscape := if bad then some 0 else p.badEscape.map (· + n)
        length := p.length + n }

end MessageCatalog.Script
