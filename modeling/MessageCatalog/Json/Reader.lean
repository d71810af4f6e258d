import MessageCatalog.Json.Basic
import MessageCatalog.Text.Blank
import MessageCatalog.Text.CodePoint
/-! Reading JSON, strictly: no comments, no trailing commas, nothing after the value. -/

namespace MessageCatalog.Json

def isGap (c : Char) : Bool := c = ' ' || c = '\n' || c = '\t' || c = '\r'

def skipGap (cs : List Char) : List Char := cs.dropWhile isGap

def escapedPoint? : Char → Option Nat
  | '"' => some 0x22
  | '\\' => some 0x5c
  | '/' => some 0x2f
  | 'b' => some 8
  | 'f' => some 12
  | 'n' => some 10
  | 'r' => some 13
  | 't' => some 9
  | _ => none

def stringPoints? : List Char → Option (List Nat × List Char)
  | '\\' :: 'u' :: a :: b :: c :: d :: r =>
    match Text.fixedHex? 4 [a, b, c, d] with
    | some point => (stringPoints? r).map fun (points, r) => (point :: points, r)
    | none => none
  | '\\' :: e :: r =>
    match escapedPoint? e with
    | some point => (stringPoints? r).map fun (points, r) => (point :: points, r)
    | none => none
  | '"' :: r => some ([], r)
  | c :: r =>
    if c.toNat < 0x20 then none
    else (stringPoints? r).map fun (points, r) => (c.toNat :: points, r)
  | [] => none

def digits? (cs : List Char) : Option (List Char × List Char) :=
  let ds := cs.takeWhile Char.isDigit
  if ds.isEmpty then none else some (ds, cs.drop ds.length)

def whole? (cs : List Char) : Option (List Char × List Char) :=
  match cs with
  | '0' :: r => some (['0'], r)
  | cs => digits? cs

def fraction? (cs : List Char) : Option (List Char × List Char) :=
  match cs with
  | '.' :: r => (digits? r).map fun (ds, r) => ('.' :: ds, r)
  | cs => some ([], cs)

def exponent? (cs : List Char) : Option (List Char × List Char) :=
  match cs with
  | c :: r =>
    if c = 'e' || c = 'E' then
      match r with
      | '+' :: r => (digits? r).map fun (ds, r) => (c :: '+' :: ds, r)
      | '-' :: r => (digits? r).map fun (ds, r) => (c :: '-' :: ds, r)
      | r => (digits? r).map fun (ds, r) => (c :: ds, r)
    else some ([], cs)
  | [] => some ([], [])

def number? (cs : List Char) : Option (List Char × List Char) := do
  let (sign, r) := match cs with
    | '-' :: r => (['-'], r)
    | r => ([], r)
  let (whole, r) ← whole? r
  let (fraction, r) ← fraction? r
  let (exponent, r) ← exponent? r
  return (sign ++ whole ++ fraction ++ exponent, r)

def scalar? (cs : List Char) : Option (Json × List Char) :=
  match Text.dropLead? "null".toList cs, Text.dropLead? "true".toList cs,
      Text.dropLead? "false".toList cs with
  | some r, _, _ => some (.null, r)
  | _, some r, _ => some (.bool true, r)
  | _, _, some r => some (.bool false, r)
  | none, none, none =>
    (number? cs).map fun (digits, r) => (.number (String.ofList digits), r)

def colon? (cs : List Char) : Option (List Char) :=
  match skipGap cs with
  | ':' :: r => some r
  | _ => none

mutual

def value? : Nat → List Char → Option (Json × List Char)
  | 0, _ => none
  | steps + 1, cs =>
    match skipGap cs with
    | '"' :: r => (stringPoints? r).map fun (points, r) => (.string (Text.textOfPoints points), r)
    | '[' :: r =>
      match skipGap r with
      | ']' :: r => some (.array [], r)
      | r => (items? steps r).map fun (items, r) => (.array items, r)
    | '\x7b' :: r =>
      match skipGap r with
      | '\x7d' :: r => some (.object [], r)
      | r => (members? steps r).map fun (members, r) => (.object members, r)
    | cs => scalar? cs

def items? : Nat → List Char → Option (List Json × List Char)
  | 0, _ => none
  | steps + 1, cs =>
    match value? steps cs with
    | none => none
    | some (item, r) =>
      match skipGap r with
      | ',' :: r => (items? steps r).map fun (items, r) => (item :: items, r)
      | ']' :: r => some ([item], r)
      | _ => none

def members? : Nat → List Char → Option (List (Option String × Json) × List Char)
  | 0, _ => none
  | steps + 1, cs =>
    match skipGap cs with
    | '"' :: r =>
      match stringPoints? r with
      | none => none
      | some (points, r) =>
        match (colon? r).bind (value? steps) with
        | none => none
        | some (value, r) =>
          let member := (Text.textOfPoints points, value)
          match skipGap r with
          | ',' :: r => (members? steps r).map fun (members, r) => (member :: members, r)
          | '\x7d' :: r => some ([member], r)
          | _ => none
    | _ => none

end

def parse? (text : String) : Option Json :=
  let cs := text.toList
  match value? (2 * cs.length + 2) cs with
  | some (value, r) => if (skipGap r).isEmpty then some value else none
  | none => none

end MessageCatalog.Json
