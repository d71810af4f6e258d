import MessageCatalog.Text.Blank
/-! Paths as text: their components, extensions and ancestors. -/

namespace MessageCatalog.Path

def pieces (path : List Char) : List (List Char) :=
  (Text.splitAt '/' path).filter (!·.isEmpty)

/-- The last component, unless it is `..` or there is none. Dots for the directory itself do not
count, except at the start of a relative path. -/
def fileName? (path : List Char) : Option (List Char) :=
  match (pieces path).reverse.dropWhile (· = ['.']) with
  | last :: _ => if last = ['.', '.'] then none else some last
  | [] => none

def extension? (path : List Char) : Option (List Char) :=
  match fileName? path with
  | none => none
  | some name =>
    let tail := name.reverse.takeWhile (· != '.')
    if tail.length + 1 < name.length then some tail.reverse else none

def isAbsolute (path : List Char) : Bool := path.head? = some '/'

/-- Whether a piece between slashes is a component. A dot is one only as the `first` piece. -/
def isComponent (first : Bool) (piece : List Char) : Bool :=
  !piece.isEmpty && (first || piece ≠ ['.'])

def components (path : List Char) : List (List Char) :=
  match Text.splitAt '/' path with
  | [] => []
  | first :: rest =>
    (if isAbsolute path then [['/']] else [first].filter (isComponent true)) ++
      rest.filter (isComponent false)

/-- Whether the path is `root` or lies below it, as far as the texts tell. -/
def isWithin (root path : List Char) : Bool :=
  (components root).isPrefixOf (components path)

def join (base inner : String) : String :=
  if isAbsolute inner.toList || base = "" then inner
  else if base.toList.getLast? = some '/' then base ++ inner
  else base ++ "/" ++ inner

def beginnings (before : List Char) (first : Bool) : List (List Char) → List (List Char)
  | [] => []
  | piece :: rest =>
    let here := before ++ piece
    let longer := beginnings (here ++ ['/']) false rest
    if isComponent first piece then here :: longer else longer

/-- The path and the directories that its text names on the way to it, innermost first. They end
with the root, or with the empty path where a relative path starts. -/
def ancestors (path : List Char) : List (List Char) :=
  match (beginnings [] true (Text.splitAt '/' path)).reverse with
  | [] => [path]
  | _ :: outer => path :: outer ++ [if isAbsolute path then ['/'] else []]

end MessageCatalog.Path
