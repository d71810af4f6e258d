import MessageCatalog.Location
import MessageCatalog.Message.Basic
import MessageCatalog.Scope
/-! The messages defined so far: named ones by their key, unnamed ones by the binding that their
name had where they were defined. -/

namespace MessageCatalog

structure NamedEntry where
  message : Message
  location : Location
  deriving Repr, DecidableEq

structure Registry where
  named : Table String NamedEntry := .empty
  unnamed : Table Binding Message := .empty
  deriving Repr, DecidableEq

namespace Registry

def empty : Registry := {}

def locationOf? (r : Registry) (key : String) : Option Location :=
  (r.named.find? key).map (·.location)

def addNamed (r : Registry) (key : String) (message : Message) (location : Location) : Registry :=
  { r with named := r.named.insert key ⟨message, location⟩ }

def addUnnamed (r : Registry) (binding : Binding) (message : Message) : Registry :=
  { r with unnamed := r.unnamed.insert binding message }

def named? (r : Registry) (key : String) : Option Message := (r.named.find? key).map (·.message)

def unnamed? (r : Registry) (binding : Binding) : Option Message := r.unnamed.find? binding

def fromMark? (mark : List Char) : List Char → Option (List Char)
  | [] => none
  | c :: r => if Name.startsWith mark (c :: r) then some (c :: r) else fromMark? mark r

/-- The message that a dotted name refers to. Its key is the text from `MSG_` on; an unnamed key
is looked up by the binding of the whole name. -/
def lookup? (r : Registry) (scopes : Scopes) (reference : String) : Option Message :=
  match fromMark? Name.messageMark reference.toList with
  | none => none
  | some key =>
    if Name.isUnnamed key then (scopes.resolve reference).bind r.unnamed?
    else r.named? (String.ofList key)

def size (r : Registry) : Nat := r.named.size + r.unnamed.size

end Registry

end MessageCatalog
