import MessageCatalog.Script.Pattern
/-! The names that statements declare, for the function around them or for their own block. -/

namespace MessageCatalog.Script

namespace Node

def declaratorNames : Node → List String
  | .declarator target _ _ => target.boundNames
  | _ => []

def declaredNames (declarators : List Node) : List String := declarators.flatMap declaratorNames

mutual

/-- The names of the `var` declarations in a node, wherever they stand in it, except in functions,
which have `var` declarations of their own. -/
def hoistedNames : Node → List String
  | .declarations .var declarators _ => declaredNames declarators
  | .declarations _ _ _ => []
  | .function .. => []
  | .lambda .. => []
  | .name .. => []
  | .this .. => []
  | .string .. => []
  | .imports _ attributes _ => hoistedNamesOfAll attributes
  | .template _ values _ => hoistedNamesOfAll values
  | .paren inner _ => hoistedNames inner
  | .member base _ _ => hoistedNames base
  | .call callee arguments _ => hoistedNames callee ++ hoistedNamesOfAll arguments
  | .binary _ left right _ => hoistedNames left ++ hoistedNames right
  | .assign _ target value _ => hoistedNames target ++ hoistedNames value
  | .object properties _ => hoistedNamesOfAll properties
  | .property key value _ => hoistedNames key ++ hoistedNames value
  | .method key body _ => hoistedNames key ++ hoistedNames body
  | .computed key _ => hoistedNames key
  | .spread value _ => hoistedNames value
  | .other _ parts _ => hoistedNamesOfAll parts
  | .declarator target value _ => hoistedNames target ++ hoistedNamesOfOption value
  | .functionDeclaration _ body _ => hoistedNames body
  | .classDeclaration _ body _ => hoistedNames body
  | .expressionStatement value _ => hoistedNames value
  | .returnStatement value _ => hoistedNamesOfOption value
  | .block statements _ => hoistedNamesOfAll statements
  | .sequence statements _ => hoistedNamesOfAll statements
  | .exported declaration _ => hoistedNames declaration
  | .objectPattern properties _ => hoistedNamesOfAll properties
  | .patternProperty key target _ => hoistedNames key ++ hoistedNames target
  | .arrayPattern elements _ => hoistedNamesOfAll elements
  | .withDefault target value _ => hoistedNames target ++ hoistedNames value
  | .rest target _ => hoistedNames target

def hoistedNamesOfAll : List Node → List String
  | [] => []
  | n :: ns => hoistedNames n ++ hoistedNamesOfAll ns

def hoistedNamesOfOption : Option Node → List String
  | none => []
  | some n => hoistedNames n

end

def blockNames : Node → List String
  | .declarations .var _ _ => []
  | .declarations _ declarators _ => declaredNames declarators
  | .functionDeclaration text _ _ => [text]
  | .classDeclaration text _ _ => [text]
  | _ => []

def lexicalNames (statements : List Node) : List String := statements.flatMap blockNames

def itemNames : Node → List String
  | .imports locals _ _ => locals
  | .exported declaration _ => declaration.blockNames
  | node => node.blockNames

/-- All names declared at the top of a module; those of `var` declarations come last. -/
def moduleNames (items : List Node) : List String :=
  items.flatMap itemNames ++ hoistedNamesOfAll items

end Node

def Program.topNames (p : Program) : List String :=
  if p.isModule then Node.moduleNames p.items
  else Node.hoistedNamesOfAll p.items ++ Node.lexicalNames p.items

end MessageCatalog.Script
