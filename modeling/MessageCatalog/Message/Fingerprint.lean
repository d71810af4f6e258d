import MessageCatalog.Message.Part
/-! A 64-bit fingerprint of the content of a message. All arithmetic is modulo `2 ^ 64`. -/

namespace MessageCatalog.Fingerprint

/-- The low half of the product of two words, xor its high half. -/
def fold (a b : UInt64) : UInt64 :=
  let product := a.toNat * b.toNat
  UInt64.ofNat product ^^^ UInt64.ofNat (product >>> 64)

def littleEndian : List UInt8 → UInt64
  | [] => 0
  | b :: r => b.toUInt64 ||| (littleEndian r <<< 8)

def seed : UInt64 × UInt64 := (0x243f6a8885a308d3, 0x13198a2e03707344)

def salt : UInt64 := 0xa4093822299f31d0

def factor : UInt64 := 0xf1357aea2e62a9c5

def lastBytes (n : Nat) (bytes : List UInt8) : List UInt8 := bytes.drop (bytes.length - n)

def absorbShort (bytes : List UInt8) : UInt64 × UInt64 :=
  let (s0, s1) := seed
  let n := bytes.length
  if 8 ≤ n then
    (s0 ^^^ littleEndian (bytes.take 8), s1 ^^^ littleEndian (lastBytes 8 bytes))
  else if 4 ≤ n then
    (s0 ^^^ littleEndian (bytes.take 4), s1 ^^^ littleEndian (lastBytes 4 bytes))
  else
    match bytes with
    | [] => (s0, s1)
    | first :: _ =>
      let last := (bytes.getLast?.getD 0).toUInt64
      let middle := (bytes[n / 2]?.getD 0).toUInt64
      (s0 ^^^ first.toUInt64, s1 ^^^ ((last <<< 8) ||| middle))

def absorbBlocks : Nat → List UInt8 → UInt64 × UInt64 → UInt64 × UInt64
  | 0, _, state => state
  | blocks + 1, bytes, (s0, s1) =>
    let x := littleEndian (bytes.take 8)
    let y := littleEndian ((bytes.drop 8).take 8)
    absorbBlocks blocks (bytes.drop 16) (s1, fold (s0 ^^^ x) (salt ^^^ y))

/-- All full blocks before the last byte, then the last sixteen bytes. -/
def absorbLong (bytes : List UInt8) : UInt64 × UInt64 :=
  let (s0, s1) := absorbBlocks ((bytes.length - 1) / 16) bytes seed
  let tail := lastBytes 16 bytes
  (s0 ^^^ littleEndian (tail.take 8), s1 ^^^ littleEndian (tail.drop 8))

def ofBytes (bytes : List UInt8) : UInt64 :=
  let (s0, s1) := if bytes.length ≤ 16 then absorbShort bytes else absorbLong bytes
  fold s0 s1 ^^^ UInt64.ofNat bytes.length

def absorb (state word : UInt64) : UInt64 := (state + word) * factor

def absorbText (state : UInt64) (text : String) : UInt64 :=
  absorb state (ofBytes text.toUTF8.toList)

def absorbPart (state : UInt64) : Part → UInt64
  | .text value => absorbText (absorb state 0) value
  | .placeholder name => absorbText (absorb state 1) name

def finish (state : UInt64) : UInt64 := (state <<< 26) ||| (state >>> 38)

def ofParts (context : Option String) (parts : List Part) : UInt64 :=
  let start := match context with
    | some text => absorbText 0 text
    | none => 0
  finish (parts.foldl absorbPart (absorb start 0xff))

def hexDigit (n : Nat) : Char := Char.ofNat (if n < 10 then 48 + n else 55 + n)

def hex : Nat → Nat → List Char
  | 0, _ => []
  | places + 1, n => hex places (n / 16) ++ [hexDigit (n % 16)]

end MessageCatalog.Fingerprint
