/-! The form of a script, as far as messages can tell it apart. Expressions, statements, patterns
and declarations are nodes of one type; type annotations leave no trace. -/

namespace MessageCatalog.Script

/-- Byte offsets in the source, end excluded. -/
structure Span where
  start : Nat
  stop : Nat
  deriving Repr, DecidableEq

inductive VarKind where
  | var
  | letKind
  | constKind
  deriving Repr, DecidableEq

/-- What a node is whose parts follow no rule of their own. -/
inductive Form where
  | number
  | boolean
  | null
  | literal
  | propertyAccess
  | taggedTemplate
  | new
  | unary
  | conditional
  | array
  | expression
  | ifStatement
  | throw
  | emptyStatement
  | declaration
  | statement
  | part
  deriving Repr, DecidableEq

inductive Node where
  | name (text : String) (span : Span)
  | this (span : Span)
  /-- A string literal; it has no text if it holds half of a surrogate pair. -/
  | string (text : Option String) (span : Span)
  | template (text : Option String) (values : List Node) (span : Span)
  | paren (inner : Node) (span : Span)
  | member (object : Node) (property : String) (span : Span)
  /-- An ordinary call; optional calls are not of this form. -/
  | call (callee : Node) (arguments : List Node) (span : Span)
  | binary (operator : String) (left right : Node) (span : Span)
  | assign (operator : String) (target value : Node) (span : Span)
  | function (isArrow : Bool) (parameters body : List Node) (bodySpan span : Span)
  | lambda (parameters : List Node) (result : Node) (span : Span)
  | object (properties : List Node) (span : Span)
  | property (key value : Node) (span : Span)
  | method (key function : Node) (span : Span)
  | computed (key : Node) (span : Span)
  | spread (value : Node) (span : Span)
  | other (form : Form) (parts : List Node) (span : Span)
  | declarations (kind : VarKind) (declarators : List Node) (span : Span)
  | declarator (target : Node) (value : Option Node) (span : Span)
  | functionDeclaration (name : String) (function : Node) (span : Span)
  | classDeclaration (name : String) (body : Node) (span : Span)
  | expressionStatement (value : Node) (span : Span)
  | returnStatement (value : Option Node) (span : Span)
  | block (statements : List Node) (span : Span)
  /-- Statements without a scope of their own: a switch case, the body of a namespace. -/
  | sequence (statements : List Node) (span : Span)
  | imports (locals : List String) (attributes : List Node) (span : Span)
  | exported (declaration : Node) (span : Span)
  | objectPattern (properties : List Node) (span : Span)
  | patternProperty (key target : Node) (span : Span)
  | arrayPattern (elements : List Node) (span : Span)
  | withDefault (target value : Node) (span : Span)
  | rest (target : Node) (span : Span)
  deriving Repr

namespace Node

def span : Node → Span
  | .name _ s => s
  | .this s => s
  | .string _ s => s
  | .template _ _ s => s
  | .paren _ s => s
  | .member _ _ s => s
  | .call _ _ s => s
  | .binary _ _ _ s => s
  | .assign _ _ _ s => s
  | .function _ _ _ _ s => s
  | .lambda _ _ s => s
  | .object _ s => s
  | .property _ _ s => s
  | .method _ _ s => s
  | .computed _ s => s
  | .spread _ s => s
  | .other _ _ s => s
  | .declarations _ _ s => s
  | .declarator _ _ s => s
  | .functionDeclaration _ _ s => s
  | .classDeclaration _ _ s => s
  | .expressionStatement _ s => s
  | .returnStatement _ s => s
  | .block _ s => s
  | .sequence _ s => s
  | .imports _ _ s => s
  | .exported _ s => s
  | .objectPattern _ s => s
  | .patternProperty _ _ s => s
  | .arrayPattern _ s => s
  | .withDefault _ _ s => s
  | .rest _ s => s

end Node

structure Program where
  isModule : Bool
  items : List Node
  deriving Repr

end MessageCatalog.Script
