import MessageCatalog.Script.Parser.Expression
/-! Markup elements inside expressions. -/

namespace MessageCatalog.Script.Parser

variable (g : Grammar)

def tagName : Parser String := do
  let c ← cursor
  match c.token with
  | .word .. =>
    let n := countWhile (fun d => isIdentifierPart d || d = '-') c.text
    fun _ c => .ok (String.ofList (c.text.take n), (c.reread c.token n).advance)
  | _ => fail

def elementName : Parser String := do
  let first ← tagName
  if ← eatSymbol ":" then
    let last ← tagName
    return first ++ ":" ++ last
  else
    let rest ← many do
      if ← eatSymbol "." then return some ("." ++ (← tagName)) else return none
    return first ++ String.join rest

def quotedValue : Parser Unit := do
  let c ← cursor
  match c.text with
  | quote :: r =>
    let n := countWhile (· != quote) r
    if (r.drop n).isEmpty then fail
    fun _ c => .ok ((), (c.reread (.string none) (n + 2)).advance)
  | [] => fail

/-- An expression in braces, or nothing in them; the closing brace stays the current token. -/
def embedded : Parser (List Node) := do
  expectSymbol "\x7b"
  let values ← if ← isSymbol "\x7d" then pure []
    else
      let _ ← eatSymbol "..."
      pure [← expressionWithin g]
  if !(← isSymbol "\x7d") then fail
  return values

def attributeValue : Parser (List Node) := do
  match ← token, (← cursor).text with
  | .symbol "\x7b", _ =>
    let values ← embedded g
    advance
    return values
  | .symbol "<", _ =>
    let node ← g.element
    advance
    return [node]
  | _, '"' :: _ => quotedValue; return []
  | _, '\'' :: _ => quotedValue; return []
  | _, _ => fail

def attributeRule : Parser (List Node) := do
  if ← isSymbol "\x7b" then
    let values ← embedded g
    advance
    return values
  else
    let _ ← tagName
    if ← eatSymbol ":" then
      let _ ← tagName
    if ← eatSymbol "=" then attributeValue g else return []

/-- Make a `>` the current token, also where it starts a longer symbol. -/
def stopAtAngle : Parser Unit := do
  if ← startsWithAngle then fun _ c => .ok ((), c.reread (.symbol ">") 1) else fail

def elementText : Parser Unit := do
  let c ← cursor
  let n := countWhile (fun d => d != '<' && d != '\x7b') c.rest
  let after := c.rest.drop n
  let stop := c.stop + Text.byteLength (c.rest.take n)
  if after.isEmpty then fail
  fun _ c => .ok ((),
    { c with
      token := .symbol (if after.head? = some '<' then "<" else "\x7b")
      start := stop, stop := stop + 1, text := after, rest := after.drop 1
      newline := false, previousStop := stop })

def elementChildren : Parser (List Node) := do
  elementText
  let groups ← many do
    let isClosing ← ahead do
      if ← eatSymbol "<" then isSymbol "/" else return false
    if isClosing then return none
    else
      let values ← if ← isSymbol "<" then pure [← g.element] else embedded g
      elementText
      return some values
  return groups.flatten

def elementRule : Parser Node := under (fun m => { m with beforeColon := false }) do
  let s ← start
  expectSymbol "<"
  let opened ← if ← startsWithAngle then pure none else some <$> elementName
  if opened.isSome && (← mode).typed then typeArguments? g
  let attributes ← many do
    if opened.isNone || (← startsWithAngle) || (← isSymbol "/") then return none
    else return some (← attributeRule g)
  let inner ← if ← eatSymbol "/" then pure []
    else
      stopAtAngle
      let inner ← elementChildren g
      expectSymbol "<"
      expectSymbol "/"
      let closed ← if ← startsWithAngle then pure none else some <$> elementName
      if opened != closed then fail
      pure inner
  stopAtAngle
  return .other .expression (attributes.flatten ++ inner) ⟨s, (← cursor).stop⟩

end MessageCatalog.Script.Parser
