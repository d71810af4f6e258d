/-! Code points: their digits in escapes, and how surrogates join to characters. -/

namespace MessageCatalog.Text

def hexValue? (c : Char) : Option Nat :=
  let n := c.toNat
  if 48 ≤ n && n ≤ 57 then some (n - 48)
  else if 97 ≤ n && n ≤ 102 then some (n - 87)
  else if 65 ≤ n && n ≤ 70 then some (n - 55)
  else none

def isHexDigit (c : Char) : Bool := (hexValue? c).isSome

def hexNumber (cs : List Char) : Nat :=
  cs.foldl (fun n c => n * 16 + (hexValue? c).getD 0) 0

def fixedHex? (digits : Nat) (cs : List Char) : Option Nat :=
  let ds := cs.take digits
  if ds.length = digits && ds.all isHexDigit then some (hexNumber ds) else none

def isHighSurrogate (n : Nat) : Bool := 0xd800 ≤ n && n < 0xdc00

def isLowSurrogate (n : Nat) : Bool := 0xdc00 ≤ n && n < 0xe000

/-- The characters with these code points. A high surrogate joins the low one after it; there is
no text if one of them stands alone. -/
def joinSurrogates : List Nat → Option (List Char)
  | [] => some []
  | [n] => if isHighSurrogate n || isLowSurrogate n then none else some [Char.ofNat n]
  | n :: m :: r =>
    if isHighSurrogate n then
      if isLowSurrogate m then
        (joinSurrogates r).map
          (Char.ofNat (0x10000 + (n - 0xd800) * 0x400 + (m - 0xdc00)) :: ·)
      else none
    else if isLowSurrogate n then none
    else (joinSurrogates (m :: r)).map (Char.ofNat n :: ·)

def textOfPoints (points : List Nat) : Option String := (joinSurrogates points).map String.ofList

end MessageCatalog.Text
