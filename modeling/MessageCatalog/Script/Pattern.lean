import MessageCatalog.Script.Node
/-! Patterns: the names they bind, and the expressions that turn out to be patterns. -/

namespace MessageCatalog.Script.Node

mutual

def boundNames : Node → List String
  | .name text _ => [text]
  | .objectPattern properties _ => boundNamesOfAll properties
  | .patternProperty _ target _ => boundNames target
  | .arrayPattern elements _ => boundNamesOfAll elements
  | .withDefault target _ _ => boundNames target
  | .rest target _ => boundNames target
  | _ => []

def boundNamesOfAll : List Node → List String
  | [] => []
  | p :: ps => boundNames p ++ boundNamesOfAll ps

end

mutual

def toPattern : Node → Node
  | .object properties span => .objectPattern (toPatterns properties) span
  | .property key value span => .patternProperty key (toPattern value) span
  | .spread value span => .rest (toPattern value) span
  | .other .array elements span => .arrayPattern (toPatterns elements) span
  | .assign "=" target value span => .withDefault (toPattern target) value span
  | node => node

def toPatterns : List Node → List Node
  | [] => []
  | n :: ns => toPattern n :: toPatterns ns

end

end MessageCatalog.Script.Node
