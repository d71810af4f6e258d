import MessageCatalog.FileSystem
import MessageCatalog.Glob
import MessageCatalog.Json.Printer
import MessageCatalog.Json.Reader
import MessageCatalog.Message.Basic
import MessageCatalog.Message.Style
/-! The project file: what it says, what is wrong with it, and where it is found. -/

namespace MessageCatalog

structure Config where
  includes : List String := []
  ignores : List String := ["**/node_modules/**"]
  externs : List String := []
  ignoreTestFiles : Bool := true
  style : Style := .closure
  strategy : IdStrategy := .key
  deriving Repr, DecidableEq

namespace Config

def toJson (c : Config) : Json :=
  .record
    [ ("includes", .ofStrings c.includes),
      ("ignores", .ofStrings c.ignores),
      ("externs", .ofStrings c.externs),
      ("ignoreTestFiles", .bool c.ignoreTestFiles),
      ("style", .ofString c.style.text),
      ("idGenerator", .ofString c.strategy.text) ]

def choice? {α : Type} (ofText? : String → Option α) : Json → Option α
  | .string (some name) => ofText? name
  | .object [(some name, .null)] => ofText? name
  | _ => none

def fields : List (String × (Json → Config → Option Config)) :=
  [ ("includes", fun j c => j.texts?.map fun v => { c with includes := v }),
    ("ignores", fun j c => j.texts?.map fun v => { c with ignores := v }),
    ("externs", fun j c => j.texts?.map fun v => { c with externs := v }),
    ("ignoreTestFiles", fun j c => j.bool?.map fun v => { c with ignoreTestFiles := v }),
    ("style", fun j c => (choice? Style.ofText? j).map fun v => { c with style := v }),
    ("idGenerator", fun j c =>
      (choice? IdStrategy.ofText? j).map fun v => { c with strategy := v }) ]

def ofItems? (c : Config) : List (String × (Json → Config → Option Config)) → List Json →
    Option Config
  | _, [] => some c
  | [], _ :: _ => none
  | (_, set) :: rest, j :: js => (set j c).bind fun c => ofItems? c rest js

def ofMembers? (c : Config) (seen : List String) : List (Option String × Json) → Option Config
  | [] => some c
  | (none, _) :: _ => none
  | (some name, j) :: rest =>
    match fields.lookup name with
    | none => ofMembers? c seen rest
    | some set =>
      if name ∈ seen then none else (set j c).bind fun c => ofMembers? c (name :: seen) rest

def ofJson? : Json → Option Config
  | .array items => ofItems? {} fields items
  | .object members => ofMembers? {} [] members
  | _ => none

inductive Fault where
  | badPattern (field pattern : String) (problem : Glob.Malformed)
  | externPattern (pattern : String)
  deriving Repr, DecidableEq

def Fault.message : Fault → String
  | .badPattern field pattern problem =>
    s!"Invalid glob pattern in '{field}': \"{pattern}\": {problem.message}"
  | .externPattern pattern =>
    s!"Invalid entry in 'externs': \"{pattern}\" (extern files must be listed individually)"

def patternFault? (field pattern : String) : Option Fault :=
  match Glob.parse pattern with
  | .ok _ => none
  | .error problem => some (.badPattern field pattern problem)

/-- What makes the configuration useless, if anything does. All that is ignored has to be a
pattern, what is included only where it has wildcards; externs are single files. -/
def fault? (c : Config) : Option Fault :=
  (c.ignores.findSome? (patternFault? "ignores")).or <|
    ((c.includes.filter Glob.hasWildcard).findSome? (patternFault? "includes")).or <|
      (c.externs.find? Glob.hasWildcard).map .externPattern

def fileName : String := ".jsmsgrc.json"

def firstOf (fs : FileSystem) : List String → Option String
  | [] => none
  | directory :: outer =>
    let path := Path.join directory fileName
    if fs.isFile path then some path
    else if fs.contains (Path.join directory ".git") then none
    else firstOf fs outer

/-- The project file of the source root: that of the innermost directory on its path that has
one, up to the first that holds a repository. -/
def find? (fs : FileSystem) (start : String) : Option String :=
  firstOf fs ((Path.ancestors start.toList).map String.ofList)

inductive LoadFault where
  | unreadable (path : String) (fault : FileFault)
  | notConfig (path : String)
  | invalid (path : String) (fault : Fault)
  deriving Repr, DecidableEq

def LoadFault.message : LoadFault → String
  | .unreadable path fault => s!"Failed to read config file: {path}: {fault.text}"
  | .notConfig path => s!"Failed to parse config file: {path}: <json>"
  | .invalid path fault => s!"Invalid config file: {path}: {fault.message}"

def load (fs : FileSystem) (start : String) : Except LoadFault Config :=
  match find? fs start with
  | none => .ok {}
  | some path =>
    match fs.readText path with
    | .error fault => .error (.unreadable path fault)
    | .ok text =>
      match (Json.parse? text).bind ofJson? with
      | none => .error (.notConfig path)
      | some config =>
        match config.fault? with
        | none => .ok config
        | some fault => .error (.invalid path fault)

end Config

end MessageCatalog
