import MessageCatalog.Script.Node
/-! What kind of expression or statement a node is, and which name it spells. -/

namespace MessageCatalog.Script

namespace Node

def unparenthesized : Node → Node
  | .paren inner _ => unparenthesized inner
  | node => node

/-- The name that a reference spells: `a`, `a.b` or `this.a`. Parentheses do not matter. -/
def dottedName : Node → Option String
  | .name text _ => some text
  | .this _ => some "this"
  | .member base last _ => (dottedName base).map fun first => first ++ "." ++ last
  | .paren inner _ => dottedName inner
  | _ => none

def isReferenceTo (callee : Node) (name : String) : Bool := dottedName callee = some name

def isCall : Node → Bool
  | .call .. => true
  | _ => false

end Node

def Form.text : Form → String
  | .number => "number"
  | .boolean => "boolean"
  | .null => "null"
  | .literal => "literal"
  | .propertyAccess => "property access"
  | .taggedTemplate => "tagged template"
  | .new => "new expression"
  | .unary => "unary expression"
  | .conditional => "conditional"
  | .array => "array literal"
  | _ => "expression"

namespace Node

def kind : Node → String
  | .string .. => "string"
  | .template .. => "template literal"
  | .name .. => "name"
  | .this .. => "this"
  | .member .. => "property access"
  | .call .. => "call"
  | .binary .. => "binary expression"
  | .assign .. => "assignment"
  | .function .. => "function"
  | .lambda .. => "function"
  | .object .. => "object literal"
  | .paren inner _ => kind inner
  | .other form _ _ => form.text
  | _ => "expression"

def statementKind : Node → String
  | .returnStatement .. => "return"
  | .expressionStatement .. => "expression statement"
  | .declarations .. => "declaration"
  | .functionDeclaration .. => "declaration"
  | .classDeclaration .. => "declaration"
  | .block .. => "block"
  | .other .declaration _ _ => "declaration"
  | .other .ifStatement _ _ => "if"
  | .other .throw _ _ => "throw"
  | .other .emptyStatement _ _ => "empty statement"
  | _ => "statement"

end Node

end MessageCatalog.Script
