import MessageCatalog.Script.Parser.Type
import MessageCatalog.Script.Pattern
/-! Patterns in declarations, property keys, parameters, functions and classes. -/

namespace MessageCatalog.Script.Parser

def privatePart (span : Span) : Node := .other .part [] span

variable (g : Grammar)

def valueWithin : Parser Node := under (fun m => { m with inOperator := true }) g.assignment

def propertyKey : Parser Node := do
  let s ← start
  match ← token with
  | .word text _ => advance; return .name text (← spanFrom s)
  | .string text => advance; return .string text (← spanFrom s)
  | .number _ => advance; return .other .number [] (← spanFrom s)
  | .privateName _ => advance; return privatePart (← spanFrom s)
  | .symbol "[" =>
    advance
    let key ← valueWithin g
    expectSymbol "]"
    return .computed key (← spanFrom s)
  | _ => fail

def withDefault? (s : Nat) (target : Node) : Parser Node := do
  if ← eatSymbol "=" then
    let value ← valueWithin g
    return .withDefault target value (← spanFrom s)
  else return target

def bindingElement : Parser Node := do
  let s ← start
  if ← eatSymbol "..." then
    let target ← g.binding
    colonType? g
    return .rest target (← spanFrom s)
  else
    let target ← g.binding
    whenTyped do let _ ← eatSymbol "?"
    colonType? g
    withDefault? g s target

def bindingProperty : Parser Node := do
  let s ← start
  if ← isSymbol "..." then bindingElement g
  else
    let plain := (← name?).isSome
    let key ← propertyKey g
    if ← eatSymbol ":" then
      let target ← bindingElement g
      return .patternProperty key target (← spanFrom s)
    else if plain then withDefault? g s key
    else fail

def bindingRule : Parser Node := do
  let s ← start
  match ← token with
  | .symbol "\x7b" =>
    advance
    let properties ← commaList "\x7d" (bindingProperty g)
    return .objectPattern properties (← spanFrom s)
  | .symbol "[" =>
    advance
    let elements ← commaList "]" do
      if ← isSymbol "," then return none else return some (← bindingElement g)
    return .arrayPattern (elements.filterMap id) (← spanFrom s)
  | .word "this" false =>
    if (← mode).typed then advance; return .name "this" (← spanFrom s) else fail
  | _ =>
    let text ← name
    return .name text (← spanFrom s)

def accessWords : List String := ["public", "private", "protected", "readonly", "override"]

def accessModifiers : Parser Unit := do
  let _ ← many do
    match ← token with
    | .word text false =>
      if accessWords.contains text then
        let follows ← ahead do
          advance
          match ← token with
          | .word .. => return true
          | .symbol s => return ["\x7b", "["].contains s
          | _ => return false
        if follows then advance; return some () else return none
      else return none
    | _ => return none

def parameter : Parser Node := do
  whenTyped accessModifiers
  bindingElement g

def parameters : Parser (List Node) := do
  expectSymbol "("
  commaList ")" (parameter g)

def braced : Parser (List Node) := do
  expectSymbol "\x7b"
  let statements ← many do
    if ← isSymbol "\x7d" then return none else return some (← g.statement)
  expectSymbol "\x7d"
  return statements

def functionBody : Parser (List Node × Span) := do
  let s ← start
  let inside := fun (m : Mode) =>
    { m with topLevel := false, inOperator := true, beforeColon := false }
  let statements ← under inside (braced g)
  return (statements, ← spanFrom s)

def functionRest (s : Nat) (isAsync isGenerator superAllowed bodyNeeded : Bool) : Parser Node :=
  under (fun m => { m with
      inAsync := isAsync, inGenerator := isGenerator, superAllowed := superAllowed,
      topLevel := false, inOperator := true, beforeColon := false }) do
    whenTyped (typeParameters? g)
    let ps ← parameters g
    colonResult? g
    if (← mode).typed && !bodyNeeded && !(← isSymbol "\x7b") then
      semicolon
      let here ← spanFrom s
      return .function false ps [] here here
    else
      let (body, bodySpan) ← functionBody g
      return .function false ps body bodySpan (← spanFrom s)

def functionRule (s : Nat) (isAsync bodyNeeded : Bool) : Parser (Option String × Node) := do
  expectWord "function"
  let isGenerator ← eatSymbol "*"
  let text ← if (← name?).isSome then some <$> name else pure none
  let node ← functionRest g s isAsync isGenerator false bodyNeeded
  return (text, node)

def isAsyncFunction : Parser Bool := do
  if ← isWord "async" then
    ahead do
      advance
      if ← newline then return false else isWord "function"
  else return false

/-- Whether the current word is the key of a member and no modifier: nothing that could be a key
comes after it. -/
def isKeyItself : Parser Bool := ahead do
  advance
  match ← token with
  | .symbol s => return ["(", "<", "=", ";", ",", ":", "?", "!", "\x7d"].contains s
  | .endOfFile => return true
  | _ => return false

def modifierWord (text : String) (sameLine : Bool) : Parser Bool := do
  if ← isWord text then
    if ← isKeyItself then return false
    else if sameLine && (← ahead (do advance; newline)) then return false
    else advance; return true
  else return false

structure Prelude where
  isAsync : Bool
  isGenerator : Bool
  isAccessor : Bool

def methodPrelude : Parser Prelude := do
  let isAsync ← modifierWord "async" true
  let isGenerator ← eatSymbol "*"
  if isAsync || isGenerator then return ⟨isAsync, isGenerator, false⟩
  else
    let isAccessor ← if ← modifierWord "get" false then pure true else modifierWord "set" false
    return ⟨false, false, isAccessor⟩

def memberWords : List String :=
  ["declare", "public", "private", "protected", "abstract", "override", "readonly", "static",
    "accessor"]

def isStaticBlock : Parser Bool := ahead do
  if ← isWord "static" then advance; isSymbol "\x7b" else return false

def staticBlock (s : Nat) : Parser Node := do
  advance
  let (body, bodySpan) ←
    under (fun m => { m with inAsync := false, inGenerator := false }) (functionBody g)
  return .function false [] body bodySpan (← spanFrom s)

def memberModifiers : Parser Unit := do
  let words := if (← mode).typed then memberWords else ["static"]
  let _ ← many do
    match ← token with
    | .word text false =>
      if words.contains text && !(← isKeyItself) then advance; return some () else return none
    | _ => return none

def indexSignature : Parser Bool := do
  if !(← mode).typed then return false
  else if (← attempt (indexKey g)).isNone then return false
  else
    colonType? g
    semicolon
    return true

def keyMarks : Parser Unit := do
  let _ ← eatSymbol "?"
  let _ ← eatSymbol "!"

def fieldValue : Parser (List Node) := do
  if ← eatSymbol "=" then
    let value ←
      under (fun m => { m with topLevel := false, inAsync := false, inGenerator := false })
        g.assignment
    return [value]
  else return []

def memberAfter (s : Nat) (prelude : Prelude) (key : Node) : Parser Node := do
  if (← isSymbol "(") || (← isSymbol "<") then
    let function ← functionRest g s prelude.isAsync prelude.isGenerator true false
    return .method key function (← spanFrom s)
  else
    colonType? g
    let value ← fieldValue g
    semicolon
    return .other .part (key :: value) (← spanFrom s)

def classMember : Parser (List Node) :=
  under (fun m => { m with superAllowed := true, inOperator := true }) do
    let s ← start
    if ← eatSymbol ";" then return []
    else if ← isStaticBlock then return [← staticBlock g s]
    else
      memberModifiers
      if ← indexSignature g then return []
      else
        let prelude ← methodPrelude
        let key ← propertyKey g
        whenTyped keyMarks
        return [← memberAfter g s prelude key]

def heritage : Parser Unit := do
  g.type
  let _ ← many do
    if ← eatSymbol "," then g.type; return some () else return none

def classBody : Parser (List Node) := do
  expectSymbol "\x7b"
  let members ← many do
    if ← isSymbol "\x7d" then return none else return some (← classMember g)
  expectSymbol "\x7d"
  return members.flatten

def extended (superclass : Parser Node) : Parser (List Node) := do
  if ← eatWord "extends" then
    let parent ← superclass
    whenTyped (typeArguments? g)
    return [parent]
  else return []

def implemented : Parser Unit := do
  if ← eatWord "implements" then heritage g

def classRest (s : Nat) (superclass : Parser Node) : Parser Node := do
  whenTyped (typeParameters? g)
  let parent ← extended g superclass
  whenTyped (implemented g)
  let members ← classBody g
  return .other .expression (members ++ parent) (← spanFrom s)

def className? : Parser (Option String) := do
  if ← isWord "implements" then return none
  else if (← name?).isSome then return some (← name)
  else return none

def classRule (s : Nat) (superclass : Parser Node) : Parser (Option String × Node) := do
  expectWord "class"
  let text ← className?
  let node ← classRest g s superclass
  return (text, node)

end MessageCatalog.Script.Parser
