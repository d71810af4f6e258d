import MessageCatalog.Script.Node
import MessageCatalog.Script.Token
/-! Reading a script token by token: the cursor, and the small parsers that all rules use. -/

namespace MessageCatalog.Script

structure ParseError where
  offset : Nat
  deriving Repr, DecidableEq

structure Mode where
  typed : Bool
  markup : Bool
  inAsync : Bool := false
  inGenerator : Bool := false
  topLevel : Bool := true
  /-- The operator `in` is allowed; it is not in the head of a `for` loop. -/
  inOperator : Bool := true
  superAllowed : Bool := false
  /-- A colon is due, so that a colon after parentheses need not start a type. -/
  beforeColon : Bool := false
  /-- The type stands after `extends`, and is no conditional type. -/
  afterExtends : Bool := false
  deriving Repr

structure Cursor where
  token : Token
  start : Nat
  stop : Nat
  text : List Char
  rest : List Char
  newline : Bool
  previousStop : Nat
  size : Nat
  comments : List (Nat × String)
  isModule : Bool

abbrev Parser := ReaderT Mode (StateT Cursor (Except ParseError))

namespace Cursor

def readAt (c : Cursor) (state : GapState) (newline holds : Bool) (offset : Nat)
    (rest : List Char) : Cursor :=
  let gap := Gap.read state offset newline rest
  let comments := gap.comments.filterMap fun (afterLine, text) =>
    if holds && !afterLine then none else some (gap.stop, text)
  match gap.unclosed with
  | some start =>
    { c with
      token := .invalid, start := start, stop := gap.stop, text := gap.rest, rest := gap.rest,
      newline := gap.newline }
  | none =>
    let (token, n) := Token.read gap.rest
    { c with
      token := token
      start := gap.stop
      stop := gap.stop + Text.byteLength (gap.rest.take n)
      text := gap.rest
      rest := gap.rest.drop n
      newline := gap.newline
      comments := comments.reverse ++ c.comments }

def ofText (text : List Char) : Cursor :=
  let blank : Cursor :=
    { token := .endOfFile, start := 0, stop := 0, text := text, rest := text, newline := true
      previousStop := 0, size := Text.byteLength text, comments := [], isModule := false }
  let state := match text with
    | '#' :: '!' :: _ => GapState.lineComment
    | _ => GapState.space
  blank.readAt state true false 0 text

def advance (c : Cursor) : Cursor :=
  { c with previousStop := c.stop }.readAt .space false c.token.holdsComment c.stop c.rest

def reread (c : Cursor) (token : Token) (n : Nat) : Cursor :=
  { c with
    token := token
    stop := c.start + Text.byteLength (c.text.take n)
    rest := c.text.drop n }

end Cursor

namespace Parser

def fail {α : Type} : Parser α := fun _ c => .error ⟨c.start⟩

def failAt {α : Type} (offset : Nat) : Parser α := fun _ _ => .error ⟨offset⟩

def cursor : Parser Cursor := fun _ c => .ok (c, c)

def token : Parser Token := fun _ c => .ok (c.token, c)

def advance : Parser Unit := fun _ c => .ok ((), c.advance)

def start : Parser Nat := fun _ c => .ok (c.start, c)

def newline : Parser Bool := fun _ c => .ok (c.newline, c)

def mode : Parser Mode := fun m c => .ok (m, c)

def under {α : Type} (f : Mode → Mode) (p : Parser α) : Parser α := fun m c => p (f m) c

def spanFrom (start : Nat) : Parser Span := fun _ c => .ok (⟨start, c.previousStop⟩, c)

/-- Try `p`; where it fails, nothing has been read. -/
def attempt {α : Type} (p : Parser α) : Parser (Option α) := fun m c =>
  match p m c with
  | .ok (a, c') => .ok (some a, c')
  | .error _ => .ok (none, c)

def ahead {α : Type} (p : Parser α) : Parser α := fun m c =>
  match p m c with
  | .ok (a, _) => .ok (a, c)
  | .error e => .error e

def markModule : Parser Unit := fun _ c => .ok ((), { c with isModule := true })

def isSymbol (s : String) : Parser Bool := return (← token) = .symbol s

def isAnySymbol (ss : List String) : Parser Bool := do
  match ← token with
  | .symbol s => return ss.contains s
  | _ => return false

def isWord (s : String) : Parser Bool := return (← token) = .word s false

def eatSymbol (s : String) : Parser Bool := do
  if ← isSymbol s then advance; return true else return false

def eatWord (s : String) : Parser Bool := do
  if ← isWord s then advance; return true else return false

def expectSymbol (s : String) : Parser Unit := do
  if !(← eatSymbol s) then fail

def expectWord (s : String) : Parser Unit := do
  if !(← eatWord s) then fail

def isEnd : Parser Bool := return (← token) = .endOfFile

def endsStatement : Parser Bool := do
  if ← isAnySymbol [";", "\x7d"] then return true
  else if ← isEnd then return true
  else newline

def semicolon : Parser Unit := do
  if ← eatSymbol ";" then return
  else if !(← endsStatement) then fail

def word? : Parser (Option String) := do
  match ← token with
  | .word text _ => return some text
  | _ => return none

def name? : Parser (Option String) := do
  match ← token with
  | .word text escaped =>
    return if !escaped && Token.reserved.contains text then none else some text
  | _ => return none

def name : Parser String := do
  match ← name? with
  | some text => advance; return text
  | none => fail

def whenTyped (p : Parser Unit) : Parser Unit := do
  if (← mode).typed then p

def loopBound : Parser Nat := fun _ c => .ok (c.size - c.start + 2, c)

def collect {α : Type} (step : Parser (Option α)) : Nat → Parser (List α)
  | 0 => fail
  | bound + 1 => do
    match ← step with
    | some a => return a :: (← collect step bound)
    | none => return []

def many {α : Type} (step : Parser (Option α)) : Parser (List α) := do
  collect step (← loopBound)

def grow {α : Type} (step : α → Parser (Option α)) : Nat → α → Parser α
  | 0, _ => fail
  | bound + 1, a => do
    match ← step a with
    | some b => grow step bound b
    | none => return a

def iterate {α : Type} (step : α → Parser (Option α)) (a : α) : Parser α := do
  grow step (← loopBound) a

def commaList {α : Type} (close : String) (item : Parser α) : Parser (List α) := do
  let items ← many do
    if ← isSymbol close then return none
    else
      let a ← item
      if !(← isSymbol close) then expectSymbol ","
      return some a
  expectSymbol close
  return items

end Parser

/-- The rules that refer back to each other. Every rule is written over such a record, so that
the nesting of constructs is the only recursion of the whole parser. -/
structure Grammar where
  expression : Parser Node
  assignment : Parser Node
  unary : Parser Node
  binding : Parser Node
  type : Parser Unit
  /-- Stops at the last `>` of the element, because text may follow it. -/
  element : Parser Node
  statement : Parser Node
  item : Parser Node

end MessageCatalog.Script
