import MessageCatalog.Issue
import MessageCatalog.Path
import MessageCatalog.Script.Declared
import MessageCatalog.Script.Parser
import MessageCatalog.Text.Position
/-! The files of one run, parsed and in the order of their paths. -/

namespace MessageCatalog

open Script (Program)

structure Source where
  path : String
  text : List Char
  program : Program
  comments : List (Nat × String)
  deriving Repr

structure Unreadable where
  path : String
  reason : String
  deriving Repr, DecidableEq

def Unreadable.issue (u : Unreadable) : Issue := .unreadable u.path u.reason

namespace Source

def dropMark : List Char → List Char
  | [] => []
  | c :: r => if c.toNat = 0xfeff then r else c :: r

def dialectOf (path : String) : Script.Dialect :=
  Script.Dialect.ofExtension ((Path.extension? path.toList).getD [])

/-- A file that cannot be parsed gets the line at which that shows. -/
def parse (path code : String) : Except Unreadable Source :=
  let text := dropMark code.toList
  match Script.parse (dialectOf path) text with
  | .ok parsed => .ok ⟨path, text, parsed.program, parsed.comments⟩
  | .error e =>
    let line := (Text.position text e.offset).line
    .error ⟨path, s!"<parser> (line {line})"⟩

def commentsAt (s : Source) (offset : Nat) : List String :=
  (s.comments.filter (·.1 = offset)).map (·.2)

end Source

structure Compilation where
  externs : List Source
  sources : List Source
  unreadable : List Unreadable
  deriving Repr

namespace Compilation

def pathOrder (a b : String × String) : Bool :=
  (Text.compareBytes a.1.toList b.1.toList).isLE

/-- Parse files by the order of their paths; what cannot be parsed is set aside. -/
def parseAll (files : List (String × String)) : List Source × List Unreadable :=
  (files.mergeSort pathOrder).foldr
    (fun (path, code) (sources, failures) =>
      match Source.parse path code with
      | .ok source => (source :: sources, failures)
      | .error failure => (sources, failure :: failures))
    ([], [])

def ofFiles (externs sources : List (String × String)) : Compilation :=
  let (externs, externFailures) := parseAll externs
  let (sources, sourceFailures) := parseAll sources
  ⟨externs, sources, externFailures ++ sourceFailures⟩

end Compilation

end MessageCatalog
