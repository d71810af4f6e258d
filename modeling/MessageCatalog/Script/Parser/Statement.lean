import MessageCatalog.Script.Parser.Element
/-! Statements, declarations, and the imports and exports of modules. -/

namespace MessageCatalog.Script.Parser

variable (g : Grammar)

def statementOf (s : Nat) (parts : List Node) : Parser Node := do
  return .other .statement parts (← spanFrom s)

def inParentheses : Parser Node := do
  expectSymbol "("
  let node ← expressionWithin g
  expectSymbol ")"
  return node

def precedes (accepts : Token → Bool) : Parser Bool := ahead do
  advance
  if ← newline then return false else return accepts (← token)

def isNameToken : Token → Bool
  | .word text escaped => escaped || !Token.reserved.contains text
  | _ => false

def declaratorRule : Parser Node := do
  let s ← start
  let target ← g.binding
  whenTyped do let _ ← eatSymbol "!"
  colonType? g
  let value ← if ← eatSymbol "=" then some <$> g.assignment else pure none
  return .declarator target value (← spanFrom s)

def varKind? : Parser (Option VarKind) := do
  if ← isWord "var" then return some .var
  else if ← isWord "const" then return some .constKind
  else if ← isWord "let" then
    ahead do
      advance
      if (← isSymbol "[") || (← isSymbol "\x7b") || (← name?).isSome then return some .letKind
      else return none
  else return none

def declarators : Parser (List Node) := do
  let first ← declaratorRule g
  let others ← many do
    if ← eatSymbol "," then return some (← declaratorRule g) else return none
  return first :: others

def variableStatement (s : Nat) (kind : VarKind) : Parser Node := do
  advance
  let ds ← declarators g
  semicolon
  return .declarations kind ds (← spanFrom s)

def usingDeclaration (s : Nat) : Parser Node := do
  advance
  let ds ← declarators g
  semicolon
  return .other .declaration ds (← spanFrom s)

def functionDeclaration (s : Nat) (isAsync : Bool) : Parser Node := do
  let (text, node) ← functionRule g s isAsync false
  match text with
  | some text => return .functionDeclaration text node node.span
  | none => fail

def classDeclaration (s : Nat) : Parser Node := do
  let (text, node) ← classRule g s (chain g)
  match text with
  | some text => return .classDeclaration text node node.span
  | none => fail

def aliasDeclaration (s : Nat) : Parser Node := do
  advance
  let _ ← name
  typeParameters? g
  expectSymbol "="
  g.type
  semicolon
  return .other .declaration [] (← spanFrom s)

def interfaceDeclaration (s : Nat) : Parser Node := do
  advance
  let _ ← name
  typeParameters? g
  if ← eatWord "extends" then heritage g
  typeMembers g
  return .other .declaration [] (← spanFrom s)

def enumMember : Parser Node := do
  let s ← start
  let key ← propertyKey g
  let value ← if ← eatSymbol "=" then pure [← valueWithin g] else pure []
  return .other .part (key :: value) (← spanFrom s)

def enumDeclaration (s : Nat) : Parser Node := do
  expectWord "enum"
  let _ ← name
  expectSymbol "\x7b"
  let members ← commaList "\x7d" (enumMember g)
  return .other .declaration members (← spanFrom s)

/-- The body of a namespace; its imports and exports do not make the file a module. -/
def namespaceBody : Parser Node := do
  let s ← start
  let before := (← cursor).isModule
  expectSymbol "\x7b"
  let items ← many do
    if ← isSymbol "\x7d" then return none else return some (← g.item)
  expectSymbol "\x7d"
  fun _ c => .ok ((), { c with isModule := before })
  return .sequence items (← spanFrom s)

def namespaceDeclaration (s : Nat) : Parser Node := do
  advance
  match ← token with
  | .string _ => advance
  | .symbol _ => pure ()
  | _ => entityName
  let body ← if ← isSymbol "\x7b" then pure [← namespaceBody g]
    else
      semicolon
      pure []
  return .other .declaration body (← spanFrom s)

def plainDeclaration? (s : Nat) : Parser (Option Node) := do
  match ← varKind? with
  | some kind => return some (← variableStatement g s kind)
  | none =>
    if ← isWord "function" then return some (← functionDeclaration g s false)
    else if ← isWord "class" then return some (← classDeclaration g s)
    else if ← isAsyncFunction then
      advance
      return some (← functionDeclaration g s true)
    else return none

def isDeclareMark : Parser Bool := precedes fun
  | .word text false =>
    ["var", "let", "const", "function", "class", "enum", "async"].contains text ||
      !Token.reserved.contains text
  | _ => false

/-- A declaration that only typed scripts have, if one starts here. The first argument bounds the
number of words such as `declare` in front of it. -/
def typedDeclaration? (s : Nat) : Nat → Parser (Option Node)
  | 0 => fail
  | bound + 1 => do
    if !(← mode).typed then return none
    match ← token with
    | .word "type" false =>
      if ← precedes isNameToken then return some (← aliasDeclaration g s) else return none
    | .word "interface" false =>
      if ← precedes isNameToken then return some (← interfaceDeclaration g s) else return none
    | .word "enum" false => return some (← enumDeclaration g s)
    | .word "const" false =>
      if ← precedes (· = .word "enum" false) then
        advance
        return some (← enumDeclaration g s)
      else return none
    | .word "namespace" false =>
      if ← precedes isNameToken then return some (← namespaceDeclaration g s) else return none
    | .word "module" false =>
      let isModule ← precedes fun
        | .string _ => true
        | t => isNameToken t
      if isModule then return some (← namespaceDeclaration g s) else return none
    | .word "global" false =>
      if ← precedes (· = .symbol "\x7b") then return some (← namespaceDeclaration g s)
      else return none
    | .word "abstract" false =>
      if ← precedes (· = .word "class" false) then
        advance
        return some (← classDeclaration g s)
      else return none
    | .word "declare" false =>
      if ← isDeclareMark then attempt do
        advance
        match ← typedDeclaration? s bound with
        | some node => return node
        | none =>
          match ← plainDeclaration? g s with
          | some node => return node
          | none => fail
      else return none
    | _ => return none

def declaration? : Parser (Option Node) := do
  let s ← start
  match ← typedDeclaration? g s (← loopBound) with
  | some node => return some node
  | none => plainDeclaration? g s

def blockRule : Parser Node := do
  let s ← start
  let statements ← braced g
  return .block statements (← spanFrom s)

def ifRule (s : Nat) : Parser Node := do
  advance
  let test ← inParentheses g
  let yes ← g.statement
  let no ← if ← eatWord "else" then pure [← g.statement] else pure []
  return .other .ifStatement (test :: yes :: no) (← spanFrom s)

def isEach : Parser Bool := return (← isWord "of") || (← isWord "in")

def clauseBefore (close : String) : Parser (List Node) := do
  if ← isSymbol close then return [] else return [← expressionWithin g]

def forClauses (isEach : Bool) : Parser (List Node) := do
  if isEach then
    advance
    return [← expressionWithin g]
  else
    expectSymbol ";"
    let test ← clauseBefore g ";"
    expectSymbol ";"
    let update ← clauseBefore g ")"
    return test ++ update

def forRest (s : Nat) (isEach : Bool) (head : List Node) : Parser Node := do
  let clauses ← forClauses g isEach
  expectSymbol ")"
  let body ← g.statement
  statementOf s (head ++ clauses ++ [body])

def usingHead : Parser Node := do
  if !(← mode).typed then fail
  let h ← start
  let _ ← eatWord "await"
  expectWord "using"
  if ← isWord "of" then fail
  let n ← start
  let text ← name
  let target := Node.name text (← spanFrom n)
  if !(← isEach) then fail
  return .other .declaration [.declarator target none (← spanFrom n)] (← spanFrom h)

def forHead : Parser (List Node × Bool) := do
  let h ← start
  match ← varKind? with
  | some kind =>
    advance
    let ds ← under (fun m => { m with inOperator := false }) (declarators g)
    let node := Node.declarations kind ds (← spanFrom h)
    return ([node], ← isEach)
  | none =>
    match ← attempt usingHead with
    | some node => return ([node], true)
    | none =>
      if ← isSymbol ";" then return ([], false)
      else
        let node ← under (fun m => { m with inOperator := false }) g.expression
        if ← isEach then return ([node.toPattern], true) else return ([node], false)

def forRule (s : Nat) : Parser Node := do
  advance
  let _ ← eatWord "await"
  expectSymbol "("
  let (head, isEach) ← forHead g
  forRest g s isEach head

/-- The loop is shown with its condition before its body. -/
def doRule (s : Nat) : Parser Node := do
  advance
  let body ← g.statement
  expectWord "while"
  let test ← inParentheses g
  let _ ← eatSymbol ";"
  statementOf s [test, body]

def caseRule : Parser Node := do
  let s ← start
  let test ← if ← eatWord "default" then pure []
    else
      expectWord "case"
      pure [← under (fun m => { m with beforeColon := true }) (expressionWithin g)]
  expectSymbol ":"
  let b ← start
  let statements ← many do
    if (← isWord "case") || (← isWord "default") || (← isSymbol "\x7d") then return none
    else return some (← g.statement)
  let body := Node.sequence statements (← spanFrom b)
  return .other .part (test ++ [body]) (← spanFrom s)

def switchRule (s : Nat) : Parser Node := do
  advance
  let value ← inParentheses g
  expectSymbol "\x7b"
  let cases ← many do
    if ← isSymbol "\x7d" then return none else return some (← caseRule g)
  expectSymbol "\x7d"
  statementOf s (value :: cases)

def catchTarget : Parser (List Node) := do
  if ← eatSymbol "(" then
    let target ← g.binding
    colonType? g
    expectSymbol ")"
    return [target]
  else return []

def catchRule : Parser (List Node) := do
  if ← eatWord "catch" then
    let target ← catchTarget g
    let body ← blockRule g
    return target ++ [body]
  else return []

def finallyRule : Parser (List Node) := do
  if ← eatWord "finally" then return [← blockRule g] else return []

def tryRule (s : Nat) : Parser Node := do
  advance
  let body ← blockRule g
  let handler ← catchRule g
  let final ← finallyRule g
  if handler.isEmpty && final.isEmpty then fail
  else statementOf s (body :: (handler ++ final))

def jumpRule (s : Nat) : Parser Node := do
  advance
  if !(← endsStatement) then
    let _ ← name
  semicolon
  statementOf s []

def returnRule (s : Nat) : Parser Node := do
  advance
  let value ← if ← endsStatement then pure none else some <$> expressionWithin g
  semicolon
  return .returnStatement value (← spanFrom s)

def throwRule (s : Nat) : Parser Node := do
  advance
  if ← newline then fail
  let value ← expressionWithin g
  semicolon
  return .other .throw [value] (← spanFrom s)

def keywordStatement? (s : Nat) (text : String) : Parser (Option Node) := do
  match text with
  | "if" => return some (← ifRule g s)
  | "for" => return some (← forRule g s)
  | "while" =>
    advance
    let test ← inParentheses g
    let body ← g.statement
    return some (← statementOf s [test, body])
  | "do" => return some (← doRule g s)
  | "switch" => return some (← switchRule g s)
  | "try" => return some (← tryRule g s)
  | "break" => return some (← jumpRule s)
  | "continue" => return some (← jumpRule s)
  | "return" => return some (← returnRule g s)
  | "throw" => return some (← throwRule g s)
  | "with" =>
    advance
    let value ← inParentheses g
    let body ← g.statement
    return some (← statementOf s [value, body])
  | "debugger" =>
    advance
    semicolon
    return some (← statementOf s [])
  | "using" =>
    if ← precedes isNameToken then return some (← usingDeclaration g s) else return none
  | "await" =>
    let isUsing ← ahead do
      advance
      if ← isWord "using" then precedes isNameToken else return false
    if isUsing then
      advance
      return some (← usingDeclaration g s)
    else return none
  | _ => return none

def isLabel : Parser Bool := do
  if (← name?).isNone then return false
  else ahead (do advance; isSymbol ":")

def markedStatement? (s : Nat) : Parser (Option Node) := do
  match ← token with
  | .symbol "\x7b" => return some (← blockRule g)
  | .symbol ";" =>
    advance
    return some (.other .emptyStatement [] (← spanFrom s))
  | .word text false =>
    match ← keywordStatement? g s text with
    | some node => return some node
    | none =>
      if ← isLabel then
        advance
        advance
        let body ← g.statement
        return some (← statementOf s [body])
      else return none
  | _ => return none

def expressionStatement (s : Nat) : Parser Node := do
  let value ← g.expression
  semicolon
  return .expressionStatement value (← spanFrom s)

def statementRule : Parser Node :=
  under (fun m => { m with inOperator := true, beforeColon := false }) do
    let s ← start
    match ← declaration? g with
    | some node => return node
    | none =>
      match ← markedStatement? g s with
      | some node => return node
      | none => expressionStatement g s

def moduleSource : Parser (List Node) := do
  match ← token with
  | .string _ => advance
  | _ => fail
  if (← mode).typed && !(← newline) && ((← isWord "with") || (← isWord "assert")) then
    advance
    return [← objectLiteral g]
  else return []

def specifierName : Parser Unit := do
  match ← token with
  | .word .. => advance
  | .string _ => advance
  | _ => fail

def isTypeMark : Parser Bool := do
  if (← mode).typed && (← isWord "type") then
    ahead do
      advance
      match ← token with
      | .word "as" false =>
        advance
        match ← token with
        | .word "as" false =>
          advance
          match ← token with
          | .word .. => return true
          | _ => return false
        | .word .. => return false
        | _ => return true
      | .word .. => return true
      | .string _ => return true
      | _ => return false
  else return false

def importSpecifier : Parser String := do
  if ← isTypeMark then advance
  let first ← word?
  specifierName
  if ← eatWord "as" then name
  else
    match first with
    | some text => return text
    | none => fail

def importBindings : Parser (List String) := do
  if ← eatSymbol "*" then
    expectWord "as"
    return [← name]
  else if ← eatSymbol "\x7b" then commaList "\x7d" importSpecifier
  else
    let first ← name
    if ← eatSymbol "," then
      if ← eatSymbol "*" then
        expectWord "as"
        return [first, ← name]
      else
        expectSymbol "\x7b"
        return first :: (← commaList "\x7d" importSpecifier)
    else return [first]

def importAlias (s : Nat) : Parser Node := do
  let _ ← name
  expectSymbol "="
  let isRequire ← ahead do
    if ← eatWord "require" then isSymbol "(" else return false
  if isRequire then
    advance
    advance
    match ← token with
    | .string _ => advance
    | _ => fail
    expectSymbol ")"
  else entityName
  semicolon
  return .other .declaration [] (← spanFrom s)

def isTypeImport : Parser Bool := do
  if (← mode).typed && (← isWord "type") then
    ahead do
      advance
      if (← isSymbol "\x7b") || (← isSymbol "*") then return true
      else if ← isWord "from" then advance; isWord "from"
      else return (← name?).isSome
  else return false

def isImportAlias : Parser Bool := do
  if !(← mode).typed then return false
  else ahead do if (← name?).isSome then advance; isSymbol "=" else return false

def importClause (s : Nat) : Parser Node := do
  let locals ← importBindings
  expectWord "from"
  let attributes ← moduleSource g
  semicolon
  return .imports locals attributes (← spanFrom s)

def importDeclaration (s : Nat) : Parser Node := do
  expectWord "import"
  markModule
  match ← token with
  | .string _ =>
    let attributes ← moduleSource g
    semicolon
    return .imports [] attributes (← spanFrom s)
  | _ =>
    if ← isTypeImport then advance
    if ← isImportAlias then importAlias s else importClause g s

def exportSpecifier : Parser Unit := do
  if ← isTypeMark then advance
  specifierName
  if ← eatWord "as" then specifierName

def exportDefault (s : Nat) : Parser Node := do
  advance
  let d ← start
  let wrap := fun (node : Node) => statementOf s [node]
  if ← isWord "function" then wrap (← functionRule g d false false).2
  else if ← isAsyncFunction then
    advance
    wrap (← functionRule g d true false).2
  else if ← isWord "class" then wrap (← classRule g d (chain g)).2
  else if (← mode).typed && (← isWord "abstract") &&
      (← precedes (· = .word "class" false)) then
    advance
    wrap (← classRule g d (chain g)).2
  else if (← mode).typed && (← isWord "interface") && (← precedes isNameToken) then
    wrap (← interfaceDeclaration g d)
  else
    let value ← g.assignment
    semicolon
    wrap value

def exportAll (s : Nat) : Parser Node := do
  if ← eatWord "as" then specifierName
  expectWord "from"
  let attributes ← moduleSource g
  semicolon
  statementOf s attributes

def exportSource : Parser (List Node) := do
  if ← eatWord "from" then moduleSource g else return []

def exportNames (s : Nat) : Parser Node := do
  let _ ← commaList "\x7d" exportSpecifier
  let attributes ← exportSource g
  semicolon
  statementOf s attributes

def isTypeExport : Parser Bool := do
  if (← mode).typed && (← isWord "type") then ahead (do advance; isAnySymbol ["\x7b", "*"])
  else return false

def typedExport? (s : Nat) : Parser (Option Node) := do
  if !(← mode).typed then return none
  else if ← eatSymbol "=" then
    let value ← g.expression
    semicolon
    return some (← statementOf s [value])
  else if ← isWord "as" then
    advance
    expectWord "namespace"
    let _ ← name
    semicolon
    return some (← statementOf s [])
  else if ← isWord "import" then
    advance
    return some (← importAlias s)
  else return none

def exportDeclaration (s : Nat) : Parser Node := do
  expectWord "export"
  markModule
  if ← isTypeExport then advance
  if ← isWord "default" then exportDefault g s
  else if ← eatSymbol "*" then exportAll g s
  else if ← eatSymbol "\x7b" then exportNames g s
  else
    match ← typedExport? g s with
    | some node => return node
    | none =>
      match ← declaration? g with
      | some node => return .exported node (← spanFrom s)
      | none => fail

def itemRule : Parser Node := do
  let s ← start
  if ← isWord "export" then exportDeclaration g s
  else if ← isWord "import" then
    let isExpression ← ahead (do advance; isAnySymbol ["(", "."])
    if isExpression then g.statement else importDeclaration g s
  else g.statement

end MessageCatalog.Script.Parser
