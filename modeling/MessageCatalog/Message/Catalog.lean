import MessageCatalog.Json.Basic
import MessageCatalog.Message.Basic
/-! The extracted messages and fallbacks, as JSON. -/

namespace MessageCatalog

def Part.toJson : Part → Json
  | .text value => .record [("type", .ofString "text"), ("value", .ofString value)]
  | .placeholder name => .record [("type", .ofString "placeholder"), ("value", .ofString name)]

def Table.toJson (t : Table String String) : Json :=
  .record (t.entries.map fun (name, value) => (name, .ofString value))

def Table.toFields (name : String) (t : Table String String) : List (String × Json) :=
  if t.isEmpty then [] else [(name, t.toJson)]

def Message.toJson (m : Message) : Json :=
  .record <|
    [ ("key", .ofString? m.key),
      ("id", .ofString m.id),
      ("parts", .array (m.parts.map Part.toJson)),
      ("desc", .ofString? m.metadata.desc),
      ("meaning", .ofString? m.metadata.meaning),
      ("alternateId", .ofString? m.metadata.alternateId),
      ("hidden", .bool m.metadata.hidden),
      ("sourceName", .ofString m.sourceName),
      ("isExternal", .bool m.isExternal) ] ++
    m.examples.toFields "placeholderExamples" ++
    m.code.toFields "placeholderOriginalCode"

structure Catalog where
  messages : List Message
  fallbacks : List (String × String)
  deriving Repr

namespace Catalog

def fallbackJson (pair : String × String) : Json :=
  .record [("first", .ofString pair.1), ("second", .ofString pair.2)]

def toJson (c : Catalog) : Json :=
  .record <|
    ("messages", .array (c.messages.map Message.toJson)) ::
      if c.fallbacks.isEmpty then [] else [("fallbacks", .array (c.fallbacks.map fallbackJson))]

end Catalog

end MessageCatalog
