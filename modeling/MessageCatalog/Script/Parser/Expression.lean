import MessageCatalog.Script.Parser.Function
/-! Expressions. What looks like parenthesised expressions and turns out to be the parameters of an
arrow function is converted. -/

namespace MessageCatalog.Script.Parser

variable (g : Grammar)

def isBareArrow : Node → Bool
  | .function true .. => true
  | .lambda .. => true
  | _ => false

def expressionWithin : Parser Node := under (fun m => { m with inOperator := true }) g.expression

def marksParameter : Parser Bool := do
  if (← mode).typed && (← isSymbol "?") then
    ahead (do advance; isAnySymbol [":", ",", ")", "="])
  else return false

def arrowRest (s : Nat) (isAsync : Bool) (ps : List Node) : Parser Node := do
  if ← newline then fail
  expectSymbol "=>"
  under (fun m => { m with inAsync := isAsync, inGenerator := false, topLevel := false }) do
    if ← isSymbol "\x7b" then
      let (body, bodySpan) ← functionBody g
      return .function true ps body bodySpan (← spanFrom s)
    else
      let result ← g.assignment
      return .lambda ps result (← spanFrom s)

def simpleArrow? (s : Nat) (isAsync : Bool) : Parser (Option Node) := do
  let isArrow ← ahead do
    if (← name?).isNone then return false
    advance
    if ← newline then return false else isSymbol "=>"
  if isArrow then
    let n ← start
    let text ← name
    let span ← spanFrom n
    return some (← arrowRest g s isAsync [.name text span])
  else return none

def genericArrow (s : Nat) (isAsync : Bool) : Parser Node := do
  typeParameters g
  let ps ← parameters g
  colonResult? g
  arrowRest g s isAsync ps

inductive Item where
  | plain (node : Node)
  | spread (node : Node)
  | parameter (node : Node)

def Item.node : Item → Node
  | .plain node => node
  | .spread node => node
  | .parameter node => node

def Item.isPlain : Item → Bool
  | .plain _ => true
  | _ => false

def Item.toParameter : Item → Node
  | .plain node => node.toPattern
  | .spread node => node.toPattern
  | .parameter node => node

def spreadItem (s : Nat) : Parser Item := do
  let value ← valueWithin g
  if (← mode).typed && (← isSymbol ":") then
    colonType? g
    return .parameter (.rest value.toPattern (← spanFrom s))
  else return .spread (.spread value (← spanFrom s))

def isThisParameter : Parser Bool := do
  if !(← mode).typed then return false
  else ahead do if ← isWord "this" then advance; isSymbol ":" else return false

def isTypedParameter : Parser Bool := do
  if !(← mode).typed then return false
  else if ← marksParameter then advance; return true
  else isSymbol ":"

def item : Parser Item := do
  let s ← start
  if ← eatSymbol "..." then spreadItem g s
  else if ← isThisParameter then
    advance
    let target := Node.name "this" (← spanFrom s)
    colonType? g
    return .parameter target
  else
    let value ← valueWithin g
    if ← isTypedParameter then
      colonType? g
      return .parameter (← withDefault? g s value.toPattern)
    else return .plain value

/-- Whether the symbols after a list in parentheses make it the parameters of an arrow function;
`some` result if they do. In typed scripts a result type may come first, and in the middle of a
conditional another colon must follow the function. -/
def arrowAfter? (s : Nat) (isAsync : Bool) (items : List Item) : Parser (Option Node) := do
  let ps := items.map Item.toParameter
  if (← isSymbol "=>") && !(← newline) then return some (← arrowRest g s isAsync ps)
  else if (← mode).typed && (← isSymbol ":") then
    attempt do
      colonResult? g
      let beforeColon := (← mode).beforeColon
      let node ← arrowRest g s isAsync ps
      if beforeColon && !(← isSymbol ":") then fail
      return node
  else return none

def commaExpression (nodes : List Node) : Node :=
  match nodes with
  | [node] => node
  | nodes =>
    let start := (nodes.head?.map (·.span.start)).getD 0
    let stop := (nodes.getLast?.map (·.span.stop)).getD 0
    .other .expression nodes ⟨start, stop⟩

def parenthesizedItems : Parser (List Item × Bool) :=
  under (fun m => { m with beforeColon := false }) <|
    iterate (fun (items, comma) => do
      if ← isSymbol ")" then return none
      else if !comma then fail
      else
        let i ← item g
        return some (items ++ [i], ← eatSymbol ",")) ([], true)

def parenthesized : Parser Node := do
  let s ← start
  expectSymbol "("
  let (items, comma) ← parenthesizedItems g
  expectSymbol ")"
  match ← arrowAfter? g s false items with
  | some node => return node
  | none =>
    let span ← spanFrom s
    if items.all Item.isPlain && !items.isEmpty && !comma then
      return .paren (commaExpression (items.map Item.node)) span
    else failAt span.stop

def argumentItems : Parser (List Item) := do
  expectSymbol "("
  under (fun m => { m with beforeColon := false }) (commaList ")" (item g))

def argumentNodes (items : List Item) : Parser (List Node) :=
  items.mapM fun
    | .plain node => return node
    | .spread node => return node
    | .parameter _ => fail

def callArguments : Parser (List Node) := do argumentNodes (← argumentItems g)

def memberOf (object : Node) : Parser Node := do
  let s := object.span.start
  match ← token with
  | .word text _ => advance; return .member object text (← spanFrom s)
  | .privateName _ => advance; return .other .propertyAccess [object] (← spanFrom s)
  | _ => fail

def template (tagged : Bool) : Parser Node := do
  let s ← start
  let (values, text) ← templatePieces tagged (expressionWithin g)
  return .template text values (← spanFrom s)

structure Chain where
  node : Node
  isOptional : Bool

def endsTypeArguments : Parser Bool := do
  if ← isAnySymbol ["<", ">", "+", "-"] then return false
  else if (← newline) || (← isEnd) then return true
  else
    isAnySymbol [")", "]", "\x7d", ",", ";", ":", ".", "?.", "?", "&&", "||", "??", "|", "&", "^",
      "*", "%", "/", "==", "!=", "===", "!=="]

def optionalLink (s : Nat) (parts : List Node) : Parser Chain := do
  return ⟨.other .expression parts (← spanFrom s), true⟩

def optionalAccess (base : Node) : Parser Chain := do
  let s := base.span.start
  match ← token with
  | .symbol "(" =>
    let args ← callArguments g
    optionalLink s (base :: args)
  | .symbol "[" =>
    advance
    let index ← expressionWithin g
    expectSymbol "]"
    optionalLink s [base, index]
  | .symbol "<" =>
    typeArguments g
    let args ← callArguments g
    optionalLink s (base :: args)
  | _ =>
    let _ ← memberOf base
    optionalLink s [base]

def typedLink (isNew : Bool) (chain : Chain) : Parser Chain := do
  let base := chain.node
  let s := base.span.start
  typeArguments g
  match ← token with
  | .symbol "(" =>
    if isNew then fail
    else
      let args ← callArguments g
      if chain.isOptional then optionalLink s (base :: args)
      else return ⟨.call base args (← spanFrom s), false⟩
  | .symbol "\x60" =>
    if isNew then fail
    else
      let piece ← template g true
      return ⟨.other .taggedTemplate [base, piece] (← spanFrom s), false⟩
  | _ =>
    if ← endsTypeArguments then return ⟨.other .expression [base] (← spanFrom s), false⟩
    else fail

/-- One more link of a member chain. After `new`, arguments are no link: they belong to `new`. -/
def chainLink (isNew : Bool) (chain : Chain) : Parser (Option Chain) := do
  let base := chain.node
  let s := base.span.start
  if isBareArrow base then return none
  else
    match ← token with
    | .symbol "." =>
      advance
      let node ← memberOf base
      if chain.isOptional then return some (← optionalLink s [base]) else return some ⟨node, false⟩
    | .symbol "?." =>
      if isNew then fail
      else
        advance
        return some (← optionalAccess g base)
    | .symbol "[" =>
      advance
      let index ← expressionWithin g
      expectSymbol "]"
      if chain.isOptional then return some (← optionalLink s [base, index])
      else return some ⟨.other .propertyAccess [base, index] (← spanFrom s), false⟩
    | .symbol "(" =>
      if isNew then return none
      else
        let args ← callArguments g
        if chain.isOptional then return some (← optionalLink s (base :: args))
        else return some ⟨.call base args (← spanFrom s), false⟩
    | .symbol "\x60" =>
      let piece ← template g true
      return some ⟨.other .taggedTemplate [base, piece] (← spanFrom s), false⟩
    | .symbol "!" =>
      if !(← mode).typed || (← newline) then return none
      else
        advance
        return some ⟨.other .expression [base] (← spanFrom s), chain.isOptional⟩
    | .symbol "<" => if (← mode).typed then attempt (typedLink g isNew chain) else return none
    | _ => return none

def chainFrom (isNew : Bool) (node : Node) : Parser Node := do
  return (← iterate (chainLink g isNew) ⟨node, false⟩).node

def superRule (s : Nat) : Parser Node := do
  let m ← mode
  if !m.superAllowed && !m.typed then fail
  expectWord "super"
  let span ← spanFrom s
  match ← token with
  | .symbol "(" =>
    let args ← callArguments g
    return .call (.other .expression [] span) args (← spanFrom s)
  | .symbol "." =>
    advance
    if (← word?).isNone then fail
    advance
    return .other .expression [] (← spanFrom s)
  | .symbol "[" =>
    advance
    let index ← expressionWithin g
    expectSymbol "]"
    return .other .expression [index] (← spanFrom s)
  | _ => fail

def importRule (s : Nat) : Parser Node := do
  expectWord "import"
  let span ← spanFrom s
  if ← eatSymbol "." then
    expectWord "meta"
    markModule
    return .other .expression [] (← spanFrom s)
  else
    let args ← callArguments g
    return .call (.other .expression [] span) args (← spanFrom s)

def objectProperty : Parser Node := do
  let s ← start
  if ← eatSymbol "..." then
    let value ← valueWithin g
    return .spread value (← spanFrom s)
  let prelude ← methodPrelude
  let plain := (← name?).isSome && !prelude.isAsync && !prelude.isGenerator && !prelude.isAccessor
  let key ← propertyKey g
  if (← isSymbol "(") || (← isSymbol "<") then
    let function ← functionRest g s prelude.isAsync prelude.isGenerator true true
    return .method key function (← spanFrom s)
  else if ← eatSymbol ":" then
    let value ← valueWithin g
    return .property key value (← spanFrom s)
  else if plain then withDefault? g s key
  else fail

def objectLiteral : Parser Node := do
  let s ← start
  expectSymbol "\x7b"
  let properties ←
    under (fun m => { m with beforeColon := false }) (commaList "\x7d" (objectProperty g))
  return .object properties (← spanFrom s)

def arrayLiteral : Parser Node := do
  let s ← start
  expectSymbol "["
  let elements ← under (fun m => { m with beforeColon := false }) <| commaList "]" do
    if ← isSymbol "," then return none
    else
      let e ← start
      if ← eatSymbol "..." then
        let value ← valueWithin g
        return some (Node.spread value (← spanFrom e))
      else return some (← valueWithin g)
  return .other .array (elements.filterMap id) (← spanFrom s)

def regularExpression : Parser Node := do
  let c ← cursor
  match regularExpressionLength? c.text with
  | none => fail
  | some n =>
    fun _ c => .ok ((), (c.reread .regularExpression n).advance)
    return .other .literal [] (← spanFrom c.start)

def newRule (superclass : Parser Node) : Nat → Parser Node
  | 0 => fail
  | bound + 1 => do
    let s ← start
    expectWord "new"
    if ← eatSymbol "." then
      expectWord "target"
      return .other .expression [] (← spanFrom s)
    else
      let base ← if ← isWord "new" then newRule superclass bound else superclass
      let callee ← chainFrom g true base
      if (← mode).typed then
        let _ ← attempt do
          typeArguments g
          if !(← isSymbol "(") then fail
      let args ← if ← isSymbol "(" then callArguments g else pure []
      return .other .new (callee :: args) (← spanFrom s)

def literalForm : String → Option Form
  | "null" => some .null
  | "true" => some .boolean
  | "false" => some .boolean
  | _ => none

def operand (superclass : Parser Node) : Parser Node := do
  let s ← start
  match ← token with
  | .string text => advance; return .string text (← spanFrom s)
  | .number isBig =>
    advance
    return .other (if isBig then .literal else .number) [] (← spanFrom s)
  | .symbol "(" => parenthesized g
  | .symbol "[" => arrayLiteral g
  | .symbol "\x7b" => objectLiteral g
  | .symbol "\x60" => template g false
  | .symbol "/" => regularExpression
  | .symbol "/=" => regularExpression
  | .privateName _ => advance; return privatePart (← spanFrom s)
  | .word text escaped =>
    if escaped then
      let n ← name
      return .name n (← spanFrom s)
    else if text = "function" then
      let (_, node) ← functionRule g s false true
      return node
    else if ← isAsyncFunction then
      advance
      let (_, node) ← functionRule g s true true
      return node
    else if text = "class" then
      let (_, node) ← classRule g s superclass
      return node
    else if text = "this" then advance; return .this (← spanFrom s)
    else if text = "super" then superRule g s
    else if text = "import" then importRule g s
    else
      match literalForm text with
      | some form => advance; return .other form [] (← spanFrom s)
      | none =>
        let n ← name
        return .name n (← spanFrom s)
  | _ => fail

/-- An operand with its members and calls. Classes extend such an expression, so that a bound on
their nesting is needed. -/
def chainRule : Nat → Parser Node
  | 0 => fail
  | bound + 1 => do
    let superclass := chainRule bound
    if (← mode).markup && (← isSymbol "<") then
      let node ← g.element
      advance
      return node
    else
      let base ← if ← isWord "new" then
          newRule g (operand g superclass) (← loopBound)
        else operand g superclass
      chainFrom g false base

def chain : Parser Node := do chainRule g (← loopBound)

def isAwait : Parser Bool := do
  if !(← isWord "await") then return false
  else if (← mode).inAsync then return true
  else
    ahead do
      advance
      if ← newline then return false
      match ← token with
      | .word text false => return !(["in", "of", "instanceof", "as"] : List String).contains text
      | .word _ true => return true
      | .string _ => return true
      | .number _ => return true
      | .symbol s => return ["\x7b", "\x60", "!", "~", "(", "["].contains s
      | _ => return false

def prefixOperand : Parser Node := do
  let value ← g.unary
  if ← isSymbol "**" then fail
  return value

def unaryRule : Parser Node := do
  let s ← start
  let typed := (← mode).typed
  if ← isAnySymbol ["!", "~", "+", "-"] then
    advance
    let value ← prefixOperand g
    return .other .unary [value] (← spanFrom s)
  else if ← isAnySymbol ["++", "--"] then
    advance
    let value ← g.unary
    return .other .expression [value] (← spanFrom s)
  else if (← isWord "typeof") || (← isWord "void") || (← isWord "delete") then
    advance
    let value ← prefixOperand g
    return .other .unary [value] (← spanFrom s)
  else if ← isAwait then
    if !(← mode).inAsync && (← mode).topLevel then markModule
    advance
    let value ← prefixOperand g
    return .other .expression [value] (← spanFrom s)
  else if typed && !(← mode).markup && (← isSymbol "<") then
    advance
    if !(← eatWord "const") then g.type
    closeAngle
    let value ← g.unary
    return .other .expression [value] (← spanFrom s)
  else
    let value ← chain g
    if isBareArrow value then return value
    else if (← isAnySymbol ["++", "--"]) && !(← newline) then
      advance
      return .other .expression [value] (← spanFrom s)
    else return value

def powerFrom : Nat → Node → Parser Node
  | 0, _ => fail
  | bound + 1, left => do
    if isBareArrow left then return left
    else if ← eatSymbol "**" then
      let base ← g.unary
      let right ← powerFrom bound base
      return .binary "**" left right ⟨left.span.start, right.span.stop⟩
    else return left

def operatorGroups : List (List String) :=
  [["*", "/", "%"], ["+", "-"], ["<<", ">>", ">>>"],
    ["<", ">", "<=", ">=", "instanceof", "in"], ["==", "!=", "===", "!=="], ["&"], ["^"], ["|"],
    ["&&"], ["||", "??"]]

def operatorOf? (group : List String) : Parser (Option String) := do
  match ← token with
  | .symbol s => return if group.contains s then some s else none
  | .word "in" false =>
    return if group.contains "in" && (← mode).inOperator then some "in" else none
  | .word "instanceof" false =>
    return if group.contains "instanceof" then some "instanceof" else none
  | _ => return none

def typeOperator? (group : List String) (left : Node) : Parser (Option Node) := do
  if group.contains "in" && (← mode).typed && !(← newline) then
    if (← isWord "as") || (← isWord "satisfies") then
      advance
      if !(← eatWord "const") then g.type
      return some (.other .expression [left] (← spanFrom left.span.start))
    else return none
  else return none

/-- An operand that is already read, joined to others by the operators of the groups, the loosest
group first. What `as` gives is an operand again, which tighter operators can take. -/
def binaryFrom : List (List String) → Node → Parser Node
  | [], left => do powerFrom g (← loopBound) left
  | group :: tighter, left => do
    let first ← binaryFrom tighter left
    if isBareArrow first then return first
    iterate (fun left => do
      match ← typeOperator? g group left with
      | some node => return some (← binaryFrom tighter node)
      | none =>
        match ← operatorOf? group with
        | none => return none
        | some operator =>
          advance
          let right ← binaryFrom tighter (← g.unary)
          return some (.binary operator left right ⟨left.span.start, right.span.stop⟩)) first

def binary : Parser Node := do binaryFrom g operatorGroups.reverse (← g.unary)

def conditional : Parser Node := do
  let test ← binary g
  if isBareArrow test || (← marksParameter) then return test
  else if ← eatSymbol "?" then
    let yes ← under (fun m => { m with inOperator := true, beforeColon := true }) g.assignment
    expectSymbol ":"
    let no ← under (fun m => { m with beforeColon := false }) g.assignment
    return .other .conditional [test, yes, no] ⟨test.span.start, no.span.stop⟩
  else return test

def assignmentOperators : List String :=
  ["=", "+=", "-=", "*=", "/=", "%=", "**=", "<<=", ">>=", ">>>=", "&=", "|=", "^=", "&&=", "||=",
    "??="]

def isTarget : Node → Bool
  | .name .. => true
  | .member .. => true
  | .paren inner _ => isTarget inner
  | .object .. => true
  | .other .propertyAccess _ _ => true
  | .other .array _ _ => true
  | .other .expression _ _ => true
  | _ => false

def yieldRule : Parser Node := do
  let s ← start
  expectWord "yield"
  if (← newline) || (← isAnySymbol [")", "]", "\x7d", ",", ";", ":"]) || (← isEnd) then
    return .other .expression [] (← spanFrom s)
  else
    let _ ← eatSymbol "*"
    let value ← g.assignment
    return .other .expression [value] (← spanFrom s)

def asyncArrow? : Parser (Option Node) := do
  let s ← start
  if !(← isWord "async") then return none
  let next ← ahead do
    advance
    if ← newline then return none
    else return some (← token)
  match next with
  | some (.word ..) =>
    if ← isAsyncFunction then return none
    else
      let found ← attempt do
        advance
        match ← simpleArrow? g s true with
        | some node => return node
        | none => fail
      return found
  | some (.symbol "(") =>
    let found ← attempt do
      advance
      let items ← argumentItems g
      if !((← isSymbol "=>") || ((← mode).typed && (← isSymbol ":"))) then fail
      match ← arrowAfter? g s true items with
      | some node => return node
      | none => fail
    return found
  | some (.symbol "<") =>
    if (← mode).typed then attempt do
      advance
      genericArrow g s true
    else return none
  | _ => return none

def assignmentRest : Parser Node := do
  let left ← conditional g
  if isBareArrow left then return left
  match ← token with
  | .symbol operator =>
    if assignmentOperators.contains operator then
      if !isTarget left then fail
      advance
      let value ← g.assignment
      let target := if operator = "=" then left.toPattern else left
      return .assign operator target value ⟨left.span.start, value.span.stop⟩
    else return left
  | _ => return left

def genericArrow? : Parser (Option Node) := do
  if !((← mode).typed && (← isSymbol "<")) then return none
  else if (← mode).markup then
    match ← attempt (assignmentRest g) with
    | some node => return some node
    | none => attempt (genericArrow g (← start) false)
  else attempt (genericArrow g (← start) false)

def assignmentRule : Parser Node := do
  if (← mode).inGenerator && (← isWord "yield") then yieldRule g
  else
    match ← asyncArrow? g with
    | some node => return node
    | none =>
      match ← simpleArrow? g (← start) false with
      | some node => return node
      | none =>
        match ← genericArrow? g with
        | some node => return node
        | none => assignmentRest g

def expressionRule : Parser Node := do
  let first ← g.assignment
  let others ← many do
    if ← eatSymbol "," then return some (← g.assignment) else return none
  return commaExpression (first :: others)

end MessageCatalog.Script.Parser
