import MessageCatalog.Script.Parser.Basic
/-! Type annotations. They are read to find where they end, and leave nothing behind. The
expressions in the computed keys of their members are read too, but are no part of the script: a
call in a type is not looked at. -/


namespace MessageCatalog.Script.Parser

def closeAngle : Parser Unit := do
  let c ← cursor
  match c.token, c.text with
  | .symbol _, '>' :: _ =>
    fun _ c => .ok ((), (c.reread (.symbol ">") 1).advance)
  | _, _ => fail

def startsWithAngle : Parser Bool := do
  let c ← cursor
  return match c.token, c.text with
    | .symbol _, '>' :: _ => true
    | _, _ => false

def angleList (item : Parser Unit) : Parser Unit := do
  expectSymbol "<"
  let _ ← many do
    if ← startsWithAngle then return none
    else
      item
      if !(← startsWithAngle) then expectSymbol ","
      return some ()
  closeAngle

variable (g : Grammar)

def typeArguments : Parser Unit := angleList g.type

def typeArguments? : Parser Unit := do
  if ← isSymbol "<" then typeArguments g

def typeParameter : Parser Unit := do
  let _ ← many do
    if (← isWord "const") || (← isWord "in") then advance; return some ()
    else if ← isWord "out" then
      match ← ahead (do advance; word?) with
      | some _ => advance; return some ()
      | none => return none
    else return none
  let _ ← name
  if ← eatWord "extends" then g.type
  if ← eatSymbol "=" then g.type

def typeParameters : Parser Unit := angleList (typeParameter g)

def typeParameters? : Parser Unit := do
  if ← isSymbol "<" then typeParameters g

def resultType : Parser Unit := do
  let asserts ← attempt do
    expectWord "asserts"
    if ← newline then fail
    if (← isWord "is") || (← word?).isNone then fail
    advance
  if asserts.isSome then
    if ← eatWord "is" then g.type
  else
    let predicate ← attempt do
      if (← word?).isNone then fail
      advance
      if ← newline then fail
      expectWord "is"
    if predicate.isSome then g.type else g.type

def colonType? : Parser Unit := do
  if (← mode).typed then
    if ← eatSymbol ":" then g.type

def colonResult? : Parser Unit := do
  if (← mode).typed then
    if ← eatSymbol ":" then resultType g

def typedParameter : Parser Unit := do
  let _ ← eatSymbol "..."
  let _ ← g.binding
  let _ ← eatSymbol "?"
  if ← eatSymbol ":" then g.type

def typedParameters : Parser Unit := do
  expectSymbol "("
  let _ ← commaList ")" (typedParameter g)

def functionType : Parser Unit := do
  under (fun m => { m with afterExtends := false }) do
    typeParameters? g
    typedParameters g
  expectSymbol "=>"
  resultType g

def templatePieces {α : Type} (tagged : Bool) (item : Parser α) :
    Parser (List α × Option String) := do
  let opening ← start
  let read : Parser Piece := do
    let c ← cursor
    match templatePiece? (c.size + 1) c.rest with
    | none => failAt opening
    | some p =>
      match p.badEscape, tagged with
      | some n, false => failAt (c.stop + Text.byteLength (c.rest.take n))
      | _, _ =>
        let mark := Token.symbol (if p.ending = .closed then "\x60" else "$\x7b")
        fun _ c => .ok (p, { c with
          token := mark
          stop := c.stop + Text.byteLength (c.rest.take p.length)
          rest := c.rest.drop p.length }.advance)
  let first ← read
  let text := if first.badEscape.isSome then none else Text.textOfPoints first.points
  match first.ending with
  | .closed => return ([], text)
  | .substitution =>
    let (items, _) ← iterate (fun (items, isLast) => do
      if isLast then return none
      else
        let a ← item
        if !(← isSymbol "\x7d") then fail
        let p ← read
        return some (items ++ [a], p.ending = .closed)) ([], false)
    return (items, text)

def entityName : Parser Unit := do
  if (← word?).isNone then fail
  advance
  let _ ← many do
    if ← eatSymbol "." then
      if (← word?).isNone then fail
      advance
      return some ()
    else return none

/-- The key of a member, in a type or a class. Private names are keys too. The expression of a
computed key is left out of the script. -/
def typeKey : Parser Unit := do
  match ← token with
  | .word .. => advance
  | .string _ => advance
  | .number _ => advance
  | .privateName _ => advance
  | .symbol "[" =>
    advance
    let _ ← under (fun m => { m with inOperator := true }) g.expression
    expectSymbol "]"
  | _ => fail

def indexKey : Parser Unit := do
  expectSymbol "["
  let _ ← name
  expectSymbol ":"
  g.type
  expectSymbol "]"

def mappedKey : Parser Unit := do
  expectSymbol "["
  let _ ← name
  expectWord "in"
  g.type
  if ← eatWord "as" then g.type
  expectSymbol "]"

def modifier? (words : List String) : Parser Bool := do
  match ← token with
  | .word text false =>
    if words.contains text then
      let follows ← ahead do
        advance
        match ← token with
        | .word .. => return true
        | .string _ => return true
        | .number _ => return true
        | .privateName _ => return true
        | .symbol s => return ["[", "\x7b", "*"].contains s
        | _ => return false
      if follows then advance
      return follows
    else return false
  | _ => return false

def typeMember : Parser Unit := do
  if (← isSymbol "(") || (← isSymbol "<") then
    typeParameters? g
    typedParameters g
    colonResult? g
  else
    let construct ← attempt do
      expectWord "new"
      typeParameters? g
      typedParameters g
      colonResult? g
    if construct.isSome then return
    if (← eatSymbol "+") || (← eatSymbol "-") then pure ()
    let _ ← modifier? ["readonly"]
    let _ ← modifier? ["get", "set"]
    let index ← attempt do
      indexKey g
    if index.isSome then
      colonType? g
    else
      let mapped ← attempt (mappedKey g)
      if mapped.isNone then typeKey g
      if (← eatSymbol "+") || (← eatSymbol "-") then pure ()
      let _ ← eatSymbol "?"
      if (← isSymbol "(") || (← isSymbol "<") then
        typeParameters? g
        typedParameters g
        colonResult? g
      else colonType? g

def typeMembers : Parser Unit := do
  expectSymbol "\x7b"
  let _ ← many do
    if ← isSymbol "\x7d" then return none
    else
      typeMember g
      if (← eatSymbol ";") || (← eatSymbol ",") then return some ()
      else if (← isSymbol "\x7d") || (← newline) then return some ()
      else fail
  expectSymbol "\x7d"

def tupleElement : Parser Unit := do
  let _ ← eatSymbol "..."
  let _label ← attempt do
    if (← word?).isNone then fail
    advance
    let _ ← eatSymbol "?"
    expectSymbol ":"
  g.type
  let _ ← eatSymbol "?"

def keywordTypes : List String :=
  ["any", "bigint", "boolean", "intrinsic", "never", "number", "object", "string", "symbol",
    "undefined", "unknown"]

def primaryType : Parser Unit := under (fun m => { m with afterExtends := false }) do
  match ← token with
  | .string _ => advance
  | .number _ => advance
  | .symbol "-" =>
    advance
    match ← token with
    | .number _ => advance
    | _ => fail
  | .symbol "\x60" => let _ ← templatePieces false g.type
  | .symbol "(" =>
    advance
    g.type
    expectSymbol ")"
  | .symbol "[" =>
    advance
    let _ ← commaList "]" (tupleElement g)
  | .symbol "\x7b" => typeMembers g
  | .word "typeof" false =>
    advance
    if ← eatWord "import" then
      expectSymbol "("
      g.type
      expectSymbol ")"
      if ← eatSymbol "." then entityName
    else entityName
    if !(← newline) then typeArguments? g
  | .word "import" false =>
    advance
    expectSymbol "("
    g.type
    expectSymbol ")"
    if ← eatSymbol "." then entityName
    typeArguments? g
  | .word text escaped =>
    if !escaped && ["null", "void", "this", "true", "false"].contains text then advance
    else if !escaped && Token.reserved.contains text then fail
    else if !escaped && keywordTypes.contains text && !(← ahead (do advance; isSymbol ".")) then
      advance
    else
      entityName
      if !(← newline) then typeArguments? g
  | _ => fail

def postfixType : Parser Unit := do
  primaryType g
  let _ ← many do
    if ← newline then return none
    else if ← eatSymbol "[" then
      if !(← isSymbol "]") then under (fun m => { m with afterExtends := false }) g.type
      expectSymbol "]"
      return some ()
    else return none

def isTypeOperator (words : List String) : Parser Bool := do
  match ← token with
  | .word text false =>
    if words.contains text then
      ahead do
        advance
        match ← token with
        | .word t _ => return t != "extends" && t != "is"
        | .string _ => return true
        | .number _ => return true
        | .symbol s => return ["(", "[", "\x7b", "\x60"].contains s
        | _ => return false
    else return false
  | _ => return false

/-- The name after `infer`, with its bound. Before a question mark, `extends` is that of a
conditional type, if there may be one. -/
def inferredType : Parser Unit := do
  if (← word?).isNone then fail
  advance
  let _ ← attempt do
    expectWord "extends"
    under (fun m => { m with afterExtends := true }) g.type
    if !(← mode).afterExtends && (← isSymbol "?") then fail

def operatorType : Parser Unit := do
  let _ ← many do
    if ← isTypeOperator ["keyof", "unique", "readonly"] then advance; return some ()
    else return none
  if ← isTypeOperator ["infer"] then
    advance
    inferredType g
  else postfixType g

def joinedType (symbol : String) (item : Parser Unit) : Parser Unit := do
  let _ ← eatSymbol symbol
  item
  let _ ← many do
    if ← eatSymbol symbol then item; return some () else return none

def unionType : Parser Unit := joinedType "|" (joinedType "&" (operatorType g))

def plainType : Parser Unit := do
  if ← isSymbol "<" then functionType g
  else if ← isWord "new" then
    advance
    functionType g
  else
    let abstractConstructor ← attempt do
      expectWord "abstract"
      expectWord "new"
    if abstractConstructor.isSome then functionType g
    else
      let function ← if ← isSymbol "(" then attempt (functionType g) else pure none
      if function.isNone then unionType g

def typeRule : Parser Unit := under (fun m => { m with inOperator := true }) do
  plainType g
  if !(← mode).afterExtends && !(← newline) then
    if ← eatWord "extends" then
      under (fun m => { m with afterExtends := true }) g.type
      expectSymbol "?"
      g.type
      expectSymbol ":"
      g.type

end MessageCatalog.Script.Parser
