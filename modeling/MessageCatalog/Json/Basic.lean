/-! JSON values. -/

namespace MessageCatalog

/-- A JSON value. A string whose escapes leave half of a surrogate pair alone has no text. -/
inductive Json where
  | null
  | bool (value : Bool)
  | number (digits : String)
  | string (text : Option String)
  | array (items : List Json)
  | object (members : List (Option String × Json))
  deriving Repr

namespace Json

def ofString (text : String) : Json := .string (some text)

def ofString? : Option String → Json
  | some text => ofString text
  | none => .null

def ofStrings (texts : List String) : Json := .array (texts.map ofString)

def record (fields : List (String × Json)) : Json :=
  .object (fields.map fun (name, value) => (some name, value))

def text? : Json → Option String
  | .string text => text
  | _ => none

def bool? : Json → Option Bool
  | .bool value => some value
  | _ => none

def texts? : Json → Option (List String)
  | .array items => items.mapM text?
  | _ => none

end Json

end MessageCatalog
