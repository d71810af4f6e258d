import MessageCatalog.Table
/-! Places in source files, and where a generated line came from. -/

namespace MessageCatalog

structure Location where
  file : String
  line : Nat
  column : Nat
  deriving Repr, DecidableEq

def Location.text (l : Location) : String := s!"{l.file}:{l.line}:{l.column}"

structure Context where
  location : Location
  sourceLine : Option String
  deriving Repr, DecidableEq

structure MappedLine where
  file : String
  line : Nat
  deriving Repr, DecidableEq

structure LineMap where
  lines : Table (String × Nat) MappedLine := .empty
  deriving Repr, DecidableEq

namespace LineMap

def insert (m : LineMap) (file : String) (line : Nat) (target : MappedLine) : LineMap :=
  ⟨m.lines.insert (file, line) target⟩

def find? (m : LineMap) (file : String) (line : Nat) : Option MappedLine :=
  m.lines.find? (file, line)

end LineMap

/-- Whatever is known of the places that generated files were made from: for a line of which
something is known, an answer for each of its columns. -/
structure SourceMap where
  find? : String → Nat → Option (Nat → Option MappedLine) := fun _ _ => none

namespace SourceMap

def locate? (m : SourceMap) (file : String) (line column : Nat) : Option MappedLine :=
  (m.find? file line).bind fun answer => answer column

def ofFunction (answer : String → Nat → Nat → Option MappedLine) : SourceMap :=
  ⟨fun file line => some (answer file line)⟩

@[simp] theorem locate?_ofFunction (answer : String → Nat → Nat → Option MappedLine) :
    (ofFunction answer).locate? = answer := rfl

end SourceMap

def LineMap.toSourceMap (m : LineMap) : SourceMap :=
  ⟨fun file line => (m.find? file line).map fun mapped _ => some mapped⟩

instance : Coe LineMap SourceMap := ⟨LineMap.toSourceMap⟩

end MessageCatalog
