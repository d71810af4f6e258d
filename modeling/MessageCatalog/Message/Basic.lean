import MessageCatalog.Message.Fingerprint
import MessageCatalog.Message.Name
import MessageCatalog.Table
/-! Messages, the drafts they are built from, and the ids they get. -/

namespace MessageCatalog

structure Metadata where
  desc : Option String := none
  meaning : Option String := none
  alternateId : Option String := none
  hidden : Bool := false
  deriving Repr, DecidableEq

structure Message where
  key : Option String
  id : String
  parts : List Part
  metadata : Metadata
  sourceName : String
  isExternal : Bool
  examples : Table String String
  code : Table String String
  deriving Repr, DecidableEq

inductive IdStrategy where
  | key
  | fingerprint
  deriving Repr, DecidableEq

namespace IdStrategy

def text : IdStrategy → String
  | .key => "key"
  | .fingerprint => "fingerprint"

def ofText? : String → Option IdStrategy
  | "key" => some .key
  | "fingerprint" => some .fingerprint
  | _ => none

/-- By key, an unnamed message gets a fingerprint under its meaning. By fingerprint, every
message gets the fingerprint under its meaning, or else under its key. -/
def makeId (strategy : IdStrategy) (key : Option String) (parts : List Part)
    (metadata : Metadata) : String :=
  match strategy, key with
  | .key, some key => key
  | .key, none =>
    "MSG_UNNAMED_" ++
      String.ofList (Fingerprint.hex 16 (Fingerprint.ofParts metadata.meaning parts).toNat)
  | .fingerprint, key => toString (Fingerprint.ofParts (metadata.meaning.or key) parts).toNat

end IdStrategy

structure IdGenerator where
  makeId : Option String → List Part → Metadata → String

namespace IdGenerator

def ofStrategy (strategy : IdStrategy) : IdGenerator := ⟨strategy.makeId⟩

instance : Coe IdStrategy IdGenerator := ⟨ofStrategy⟩

def key : IdGenerator := IdStrategy.key

def fingerprint : IdGenerator := IdStrategy.fingerprint

end IdGenerator

structure Draft where
  key : Option String := none
  parts : List Part := []
  metadata : Metadata := {}
  sourceName : String := ""
  examples : Table String String := .empty
  code : Table String String := .empty
  deriving Repr, DecidableEq

namespace Draft

def displayKey (d : Draft) : String := d.key.getD "<unnamed>"

/-- Add literal text at the end of the parts: nothing for an empty text, and into the last part
if that one is literal too. -/
def addText (text : String) : List Part → List Part
  | [] => if text = "" then [] else [.text text]
  | [.text last] => [.text (last ++ text)]
  | p :: ps => p :: addText text ps

def appendText (d : Draft) (text : String) : Draft := { d with parts := addText text d.parts }

def appendPlaceholder (d : Draft) (name : String) : Draft :=
  { d with parts := d.parts ++ [.placeholder name] }

def appendPart (d : Draft) : Part → Draft
  | .text value => d.appendText value
  | .placeholder name => d.appendPlaceholder name

def appendMessage (d : Draft) (text : String) : Except PlaceholderError Draft :=
  match Part.parse text with
  | .ok parts => .ok (parts.foldl appendPart d)
  | .error e => .error e

def placeholders (d : Draft) : List String := Part.placeholders d.parts

def setDesc (d : Draft) (desc : String) : Draft :=
  { d with metadata := { d.metadata with desc := some desc } }

def setMeaning (d : Draft) (meaning : String) : Draft :=
  { d with metadata := { d.metadata with meaning := some meaning } }

def setAlternateId (d : Draft) (id : String) : Draft :=
  { d with metadata := { d.metadata with alternateId := some id } }

def setHidden (d : Draft) (hidden : Bool) : Draft :=
  { d with metadata := { d.metadata with hidden := hidden } }

def build (generator : IdGenerator) (d : Draft) : Message :=
  let externalId := d.key.bind fun key => Name.externalId? key.toList
  { key := d.key
    id := match externalId with
      | some id => String.ofList id
      | none => generator.makeId d.key d.parts d.metadata
    parts := d.parts
    metadata := d.metadata
    sourceName := d.sourceName
    isExternal := externalId.isSome
    examples := d.examples
    code := d.code }

end Draft

namespace Message

def isEmpty (m : Message) : Bool :=
  m.parts.all fun
    | .text value => value = ""
    | .placeholder _ => false

def placeholders (m : Message) : List String := Part.placeholders m.parts

def text (m : Message) : String := Part.textOf m.parts

def isDescribed (m : Message) : Bool :=
  match m.metadata.desc with
  | some desc => !(Text.dropBlank desc.toList).isEmpty
  | none => false

end Message

end MessageCatalog
