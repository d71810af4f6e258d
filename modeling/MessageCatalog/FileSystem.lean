import MessageCatalog.Path
import MessageCatalog.Table
/-! A tree of files with a current directory, reached by paths. -/

namespace MessageCatalog

inductive Entry where
  | file (bytes : ByteArray)
  | directory (entries : List (String × Entry))

inductive FileFault where
  | notFound
  | isDirectory
  | notDirectory
  | notText
  deriving Repr, DecidableEq

def FileFault.text : FileFault → String
  | .notFound => "No such file or directory (os error 2)"
  | .isDirectory => "Is a directory (os error 21)"
  | .notDirectory => "Not a directory (os error 20)"
  | .notText => "stream did not contain valid UTF-8"

namespace Entry

def emptyDirectory : Entry := .directory []

def isDirectory : Entry → Bool
  | .file _ => false
  | .directory _ => true

def entries : Entry → List (String × Entry)
  | .file _ => []
  | .directory entries => entries

def child? (e : Entry) (name : String) : Option Entry := Table.get name e.entries

def at? (e : Entry) : List String → Option Entry
  | [] => some e
  | name :: names =>
    match e.child? name with
    | some child => child.at? names
    | none => none

def alter (change : Entry → Entry) : List String → Entry → Entry
  | [], e => change e
  | name :: names, e =>
    let child := (e.child? name).getD emptyDirectory
    .directory (Table.put name (alter change names child) e.entries)

def putFile (e : Entry) (names : List String) (bytes : ByteArray) : Entry :=
  e.alter (fun _ => .file bytes) names

def putDirectory (e : Entry) (names : List String) : Entry :=
  e.alter (fun old => .directory old.entries) names

mutual

def files (before : List String) : Entry → List (List String × ByteArray)
  | .file bytes => [(before, bytes)]
  | .directory entries => filesIn before entries

def filesIn (before : List String) : List (String × Entry) → List (List String × ByteArray)
  | [] => []
  | (name, e) :: rest => files (before ++ [name]) e ++ filesIn before rest

end

end Entry

/-- Relative paths start at the current directory. -/
structure FileSystem where
  root : Entry
  current : List String := []

namespace FileSystem

/-- One piece of a path further from a place, which has to be a directory. The root is its own
parent. -/
def step (fs : FileSystem) (place : List String) (piece : List Char) :
    Except FileFault (List String) :=
  match fs.root.at? place with
  | none => .error .notFound
  | some (.file _) => .error .notDirectory
  | some (.directory entries) =>
    if piece = [] || piece = ['.'] then .ok place
    else if piece = ['.', '.'] then .ok place.dropLast
    else
      let name := String.ofList piece
      match Table.get name entries with
      | some _ => .ok (place ++ [name])
      | none => .error .notFound

def start (fs : FileSystem) (path : String) : List String :=
  if Path.isAbsolute path.toList then [] else fs.current

def locate (fs : FileSystem) (path : String) : Except FileFault (List String) :=
  if path = "" then .error .notFound
  else (Text.splitAt '/' path.toList).foldlM fs.step (fs.start path)

def entry (fs : FileSystem) (path : String) : Except FileFault Entry := do
  match fs.root.at? (← fs.locate path) with
  | some e => return e
  | none => .error .notFound

def contains (fs : FileSystem) (path : String) : Bool :=
  match fs.entry path with
  | .ok _ => true
  | .error _ => false

def isFile (fs : FileSystem) (path : String) : Bool :=
  match fs.entry path with
  | .ok e => !e.isDirectory
  | .error _ => false

def isDirectory (fs : FileSystem) (path : String) : Bool :=
  match fs.entry path with
  | .ok e => e.isDirectory
  | .error _ => false

def readText (fs : FileSystem) (path : String) : Except FileFault String := do
  match ← fs.entry path with
  | .directory _ => .error .isDirectory
  | .file bytes =>
    match String.fromUTF8? bytes with
    | some text => return text
    | none => .error .notText

/-- Make or replace a file. Its directory has to be there, and a path that ends with a slash or
with dots names no file. -/
def writeText (fs : FileSystem) (path text : String) : Except FileFault FileSystem := do
  let pieces := Text.splitAt '/' path.toList
  match pieces.reverse.dropWhile (·.isEmpty) with
  | [] => .error (if path = "" then .notFound else .isDirectory)
  | last :: before =>
    let place ← (before.reverse ++ [[]]).foldlM fs.step (fs.start path)
    let names := place ++ [String.ofList last]
    let isName := last ≠ ['.'] && last ≠ ['.', '.'] && pieces.getLast? = some last
    if !isName || (fs.root.at? names).any (·.isDirectory) then .error .isDirectory
    else return { fs with root := fs.root.putFile names text.toUTF8 }

def changes (fs after : FileSystem) : List (List String × ByteArray) :=
  (after.root.files []).filter fun (names, bytes) =>
    match fs.root.at? names with
    | some (.file old) => old.toList ≠ bytes.toList
    | _ => true

end FileSystem

end MessageCatalog
