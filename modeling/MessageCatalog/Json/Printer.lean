import MessageCatalog.Json.Basic
/-! JSON text over several lines, two spaces a level. -/

namespace MessageCatalog.Json

def escape (c : Char) : List Char :=
  match c with
  | '"' => ['\\', '"']
  | '\\' => ['\\', '\\']
  | '\n' => ['\\', 'n']
  | '\r' => ['\\', 'r']
  | '\t' => ['\\', 't']
  | c =>
    if c.toNat = 8 then ['\\', 'b']
    else if c.toNat = 12 then ['\\', 'f']
    else if c.toNat < 0x20 then
      ['\\', 'u', '0', '0', Nat.digitChar (c.toNat / 16), Nat.digitChar (c.toNat % 16)]
    else [c]

def quote (text : String) : String :=
  String.ofList ('"' :: text.toList.flatMap escape ++ ['"'])

/-- Half a surrogate pair cannot be written, so a string without text is written as U+FFFD. -/
def quote? (text : Option String) : String := quote (text.getD "\ufffd")

def newline (level : Nat) : String :=
  String.ofList ('\n' :: List.replicate (2 * level) ' ')

mutual

def render (level : Nat) : Json → String
  | .null => "null"
  | .bool true => "true"
  | .bool false => "false"
  | .number digits => digits
  | .string text => quote? text
  | .array [] => "[]"
  | .array (item :: items) =>
    let first := newline (level + 1) ++ render (level + 1) item
    "[" ++ first ++ renderItems (level + 1) items ++ newline level ++ "]"
  | .object [] => "\x7b\x7d"
  | .object ((name, value) :: members) =>
    let first := newline (level + 1) ++ quote? name ++ ": " ++ render (level + 1) value
    "\x7b" ++ first ++ renderMembers (level + 1) members ++ newline level ++ "\x7d"

def renderItems (level : Nat) : List Json → String
  | [] => ""
  | item :: items => "," ++ newline level ++ render level item ++ renderItems level items

def renderMembers (level : Nat) : List (Option String × Json) → String
  | [] => ""
  | (name, value) :: members =>
    "," ++ newline level ++ quote? name ++ ": " ++ render level value ++
      renderMembers level members

end

def text (value : Json) : String := render 0 value

end MessageCatalog.Json
