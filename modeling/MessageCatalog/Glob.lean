/-! Patterns for paths. `?` stands for any character and `*` for any text, slashes included; `**`
is a whole component and stands for any number of them; brackets hold the characters that one may
be, or after `!` may not be. -/

namespace MessageCatalog.Glob

structure Range where
  low : Char
  high : Char
  deriving Repr, DecidableEq

def Range.holds (r : Range) (c : Char) : Bool := r.low ≤ c && c ≤ r.high

/-- The ranges between brackets; a dash that does not stand between two characters stands for
itself. -/
def ranges : List Char → List Range
  | a :: '-' :: b :: r => ⟨a, b⟩ :: ranges r
  | a :: r => ⟨a, a⟩ :: ranges r
  | [] => []

inductive Piece where
  | char (c : Char)
  | anyChar
  | oneOf (ranges : List Range)
  | noneOf (ranges : List Range)
  | anyText
  /-- Any number of directories, with the slash after each. -/
  | directories
  deriving Repr, DecidableEq

inductive Fault where
  | tooManyStars
  | partOfComponent
  | openBracket
  deriving Repr, DecidableEq

structure Malformed where
  position : Nat
  fault : Fault
  deriving Repr, DecidableEq

def Fault.text : Fault → String
  | .tooManyStars => "wildcards are either regular \x60*\x60 or recursive \x60**\x60"
  | .partOfComponent => "recursive wildcards must form a single path component"
  | .openBracket => "invalid range pattern"

def Malformed.message (m : Malformed) : String :=
  s!"Pattern syntax error near position {m.position}: {m.fault.text}"

mutual

def parseFrom (position : Nat) (start : Bool) : List Char → Except Malformed (List Piece)
  | [] => .ok []
  | '?' :: r => (parseFrom (position + 1) false r).map (.anyChar :: ·)
  | '*' :: '*' :: '*' :: _ => .error ⟨position + 2, .tooManyStars⟩
  | '*' :: '*' :: '/' :: r =>
    if start then (parseFrom (position + 3) true r).map (.directories :: ·)
    else .error ⟨position - 1, .partOfComponent⟩
  | '*' :: '*' :: r =>
    if !start then .error ⟨position - 1, .partOfComponent⟩
    else if r.isEmpty then .ok [.directories]
    else .error ⟨position + 2, .partOfComponent⟩
  | '*' :: r => (parseFrom (position + 1) false r).map (.anyText :: ·)
  | '[' :: '!' :: c :: r => parseBracket position (position + 3) Piece.noneOf [c] r
  | '[' :: c :: r => parseBracket position (position + 2) Piece.oneOf [c] r
  | ['['] => .error ⟨position, .openBracket⟩
  | c :: r => (parseFrom (position + 1) (c = '/') r).map (.char c :: ·)

def parseBracket (opening position : Nat) (make : List Range → Piece) (found : List Char) :
    List Char → Except Malformed (List Piece)
  | [] => .error ⟨opening, .openBracket⟩
  | ']' :: r => (parseFrom (position + 1) false r).map (make (ranges found.reverse) :: ·)
  | c :: r => parseBracket opening (position + 1) make (c :: found) r

end

def parse (pattern : String) : Except Malformed (List Piece) := parseFrom 0 true pattern.toList

def Piece.holds : Piece → Char → Bool
  | .char c, d => c = d
  | .anyChar, _ => true
  | .oneOf ranges, d => ranges.any (·.holds d)
  | .noneOf ranges, d => !ranges.any (·.holds d)
  | _, _ => false

def suffixes : List Char → List (List Char)
  | [] => [[]]
  | c :: r => (c :: r) :: suffixes r

/-- What may be left after whole directories at the start of the text, or after all of it. -/
def afterDirectories : List Char → List (List Char)
  | [] => [[]]
  | c :: r => if c = '/' then r :: afterDirectories r else afterDirectories r

def matchesText : List Piece → List Char → Bool
  | [], text => text.isEmpty
  | .anyText :: ps, text => (suffixes text).any (matchesText ps)
  | .directories :: ps, text => (text :: afterDirectories text).any (matchesText ps)
  | p :: ps, c :: text => p.holds c && matchesText ps text
  | _ :: _, [] => false

def hasWildcard (pattern : String) : Bool := pattern.toList.any fun c => c = '*' || c = '?'

end MessageCatalog.Glob
