import MessageCatalog.Script.Escape
import MessageCatalog.Text.Blank
/-! The tokens of a script, read one at a time, and the comments between them. -/

namespace MessageCatalog.Script

open MessageCatalog.Text (byteLength)

inductive Token where
  | word (text : String) (escaped : Bool)
  | privateName (text : String)
  | symbol (text : String)
  | string (text : Option String)
  | number (isBig : Bool)
  | regularExpression
  | endOfFile
  | invalid
  deriving Repr, DecidableEq

namespace Token

def reserved : List String :=
  ["break", "case", "catch", "class", "const", "continue", "debugger", "default", "delete", "do",
    "else", "enum", "export", "extends", "false", "finally", "for", "function", "if", "import",
    "in", "instanceof", "new", "null", "return", "super", "switch", "this", "throw", "true", "try",
    "typeof", "var", "void", "while", "with"]

/-- Whether a comment on the same line belongs to this token and not to the next one. -/
def holdsComment : Token → Bool
  | .word text escaped => escaped || !("let" :: "await" :: "yield" :: reserved).contains text
  | .privateName _ => true
  | .symbol text => [";", "\x7b", "\x7d"].contains text
  | .string _ => true
  | .number _ => true
  | .regularExpression => true
  | .endOfFile => false
  | .invalid => false

def symbols : List String :=
  [">>>=", "...", "===", "!==", "**=", "<<=", ">>=", ">>>", "&&=", "||=", "??=", "=>", "==", "!=",
    "<=", ">=", "&&", "||", "??", "?.", "++", "--", "+=", "-=", "*=", "/=", "%=", "&=", "|=", "^=",
    "<<", ">>", "**", "\x7b", "\x7d", "(", ")", "[", "]", ";", ",", "<", ">", "+", "-", "*", "/",
    "%", "&", "|", "^", "!", "~", "?", ":", "=", ".", "@", "\x60"]

def symbolChars : List (List Char) := symbols.map String.toList

end Token

def isSpace (c : Char) : Bool :=
  (Text.isBlank c && c.toNat != 0x85 && !isLineEnd c) || c.toNat = 0xfeff

inductive GapState where
  | space
  | lineComment
  | blockComment (start : Nat) (afterLine : Bool) (text : List Char)
  deriving Repr

structure Gap where
  newline : Bool
  comments : List (Bool × String)
  stop : Nat
  rest : List Char
  unclosed : Option Nat
  deriving Repr

def Gap.read : GapState → Nat → Bool → List Char → Gap
  | .space, offset, newline, '/' :: '*' :: r =>
    Gap.read (.blockComment offset newline []) (offset + 2) newline r
  | .space, offset, newline, '/' :: '/' :: r => Gap.read .lineComment (offset + 2) newline r
  | .space, offset, newline, '<' :: '!' :: '-' :: '-' :: r =>
    Gap.read .lineComment (offset + 4) newline r
  | .space, offset, true, '-' :: '-' :: '>' :: r => Gap.read .lineComment (offset + 3) true r
  | .space, offset, newline, c :: r =>
    if isLineEnd c then Gap.read .space (offset + c.utf8Size) true r
    else if isSpace c then Gap.read .space (offset + c.utf8Size) newline r
    else ⟨newline, [], offset, c :: r, none⟩
  | .lineComment, offset, newline, c :: r =>
    if isLineEnd c then Gap.read .space (offset + c.utf8Size) true r
    else Gap.read .lineComment (offset + c.utf8Size) newline r
  | .blockComment _ afterLine text, offset, newline, '*' :: '/' :: r =>
    let gap := Gap.read .space (offset + 2) newline r
    { gap with comments := (afterLine, String.ofList text.reverse) :: gap.comments }
  | .blockComment start afterLine text, offset, newline, c :: r =>
    Gap.read (.blockComment start afterLine (c :: text)) (offset + c.utf8Size)
      (newline || isLineEnd c) r
  | .blockComment start _ _, offset, newline, [] => ⟨newline, [], offset, [], some start⟩
  | _, offset, newline, [] => ⟨newline, [], offset, [], none⟩

structure Word where
  text : List Char
  escaped : Bool
  length : Nat
  deriving Repr

def Word.read : Nat → Bool → List Char → Word
  | 0, _, _ => ⟨[], false, 0⟩
  | _, _, [] => ⟨[], false, 0⟩
  | bound + 1, first, c :: r =>
    let fits := fun d => if first then isIdentifierStart d else isIdentifierPart d
    if c = '\\' then
      match r with
      | 'u' :: r' =>
        match unicodeEscape? r' with
        | some (point, n) =>
          if fits (Char.ofNat point) then
            let w := Word.read bound false (r'.drop n)
            ⟨Char.ofNat point :: w.text, true, w.length + n + 2⟩
          else ⟨[], false, 0⟩
        | none => ⟨[], false, 0⟩
      | _ => ⟨[], false, 0⟩
    else if fits c then
      let w := Word.read bound false r
      ⟨c :: w.text, w.escaped, w.length + 1⟩
    else ⟨[], false, 0⟩

def countWhile (p : Char → Bool) : List Char → Nat
  | [] => 0
  | c :: r => if p c then countWhile p r + 1 else 0

def isDigitPart (c : Char) : Bool := c.isDigit || c = '_'

def exponentLength : List Char → Nat
  | e :: r =>
    if e = 'e' || e = 'E' then
      let sign := match r with
        | '+' :: _ => 1
        | '-' :: _ => 1
        | _ => 0
      let digits := countWhile isDigitPart (r.drop sign)
      if digits = 0 then 0 else 1 + sign + digits
    else 0
  | [] => 0

def numberLength (cs : List Char) : Nat :=
  let suffix := fun n => if (cs.drop n).head? = some 'n' then n + 1 else n
  let radix := match cs with
    | '0' :: x :: _ => "xXoObB".toList.contains x
    | _ => false
  if radix then suffix (2 + countWhile (fun c => Text.isHexDigit c || c = '_') (cs.drop 2))
  else
    let whole := countWhile isDigitPart cs
    let rest := cs.drop whole
    match rest with
    | '.' :: r =>
      let n := whole + 1 + countWhile isDigitPart r
      n + exponentLength (cs.drop n)
    | _ => suffix (whole + exponentLength rest)

def regularExpressionLength? (cs : List Char) : Option Nat :=
  match go false (cs.drop 1) with
  | some n => some (1 + n + countWhile isIdentifierPart (cs.drop (1 + n)))
  | none => none
where
  go (inClass : Bool) : List Char → Option Nat
    | [] => none
    | '\\' :: c :: r => if isLineEnd c then none else (go inClass r).map (· + 2)
    | c :: r =>
      if isLineEnd c then none
      else if c = '/' && !inClass then some 1
      else if c = '[' then (go true r).map (· + 1)
      else if c = ']' then (go false r).map (· + 1)
      else (go inClass r).map (· + 1)

/-- The token at the start of the text and the number of characters that write it. A slash is
read as a symbol. -/
def Token.read (cs : List Char) : Token × Nat :=
  match cs with
  | [] => (.endOfFile, 0)
  | c :: r =>
    if isIdentifierStart c || c = '\\' then
      let w := Word.read (cs.length + 1) true cs
      if w.length = 0 then (.invalid, 1) else (.word (String.ofList w.text) w.escaped, w.length)
    else if c.isDigit || (c = '.' && r.head?.any Char.isDigit) then
      let n := numberLength cs
      if (cs.drop n).head?.any isIdentifierStart then (.invalid, n)
      else (.number ((cs.drop (n - 1)).head? = some 'n'), n)
    else if c = '"' || c = '\'' then
      match stringLiteral? (cs.length + 1) c r with
      | some l => (.string (Text.textOfPoints l.points), l.length + 1)
      | none => (.invalid, 1)
    else if c = '#' then
      let w := Word.read (cs.length + 1) true r
      if w.length = 0 then (.invalid, 1)
      else (.privateName (String.ofList w.text), w.length + 1)
    else if c = '?' && r.head? = some '.' && (r.drop 1).head?.any Char.isDigit then
      (.symbol "?", 1)
    else
      match Token.symbolChars.find? fun s => (Text.dropLead? s cs).isSome with
      | some s => (.symbol (String.ofList s), s.length)
      | none => (.invalid, 1)

end MessageCatalog.Script
