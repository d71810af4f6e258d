import MessageCatalog.Definition.Malformed
import MessageCatalog.Message.Basic
import MessageCatalog.Script.Shape
/-! Values of definitions: plain texts, function wrappers and calls of the message function. -/

namespace MessageCatalog.Definition

open Script (Node Span)

def fault {α : Type} (f : Fault) (span : Span) : Except Malformed α := .error ⟨f, span⟩

/-- The text of a string literal, of a template without substitutions, or of several of them
joined by `+`. The leftmost of the other operands is the fault. -/
def textOf : Node → Except Malformed String
  | .string (some text) _ => .ok text
  | .string none span => fault .brokenString span
  | .template _ (_ :: _) span => fault .substitution span
  | .template (some text) [] _ => .ok text
  | .template none [] span => fault .brokenTemplate span
  | .binary operator left right span =>
    if operator = "+" then
      match textOf left with
      | .error e => .error e
      | .ok l =>
        match textOf right with
        | .error e => .error e
        | .ok r => .ok (l ++ r)
    else fault (.notText "binary expression") span
  | .paren inner _ => textOf inner
  | node => fault (.notText node.kind) node.span

inductive Body where
  | statements (list : List Node) (span : Span)
  | result (node : Node)

inductive Value where
  | text (node : Node)
  | function (parameters : List Node) (body : Body)
  | call (node : Node)

def classify (key : String) (value : Node) : Except Malformed Value :=
  match value.unparenthesized with
  | .string text span => .ok (.text (.string text span))
  | .template text values span => .ok (.text (.template text values span))
  | .binary operator left right span =>
    if operator = "+" then .ok (.text (.binary operator left right span))
    else fault (.unknownValue key) span
  | .function _ parameters body bodySpan _ => .ok (.function parameters (.statements body bodySpan))
  | .lambda parameters result _ => .ok (.function parameters (.result result))
  | .call callee arguments span => .ok (.call (.call callee arguments span))
  | node => fault (.unknownValue key) node.span

def parameterNames (seen : List String) : List Node → Except Malformed (List String)
  | [] => .ok seen
  | .name text span :: ps =>
    if seen.contains text then fault (.duplicatePlaceholder text) span
    else parameterNames (seen ++ [text]) ps
  | _ :: ps => parameterNames seen ps

def appendReturned (d : Draft) : Node → Except Malformed Draft
  | .name text _ => .ok (d.appendPlaceholder text)
  | .binary operator left right span =>
    if operator = "+" then
      match appendReturned d left with
      | .error e => .error e
      | .ok d' => appendReturned d' right
    else fault (.notReturnedText "binary expression") span
  | .paren inner _ => appendReturned d inner
  | .string text span => (textOf (.string text span)).map d.appendText
  | .template text values span => (textOf (.template text values span)).map d.appendText
  | node => fault (.notReturnedText node.kind) node.span

/-- The placeholders in use are exactly the declared ones. One that is not declared is reported
before one that is not used. -/
def checkPlaceholders (used declared : List String) (span : Span) : Except Malformed Unit :=
  match used.find? (!declared.contains ·) with
  | some name => fault (.unknownPlaceholder name) span
  | none =>
    match declared.find? (!used.contains ·) with
    | some name => fault (.unusedPlaceholder name) span
    | none => .ok ()

def appendBody (d : Draft) : Body → Except Malformed (Draft × Span)
  | .result node => (appendReturned d node).map fun d' => (d', node.span)
  | .statements [] span => fault (.notReturn "nothing") span
  | .statements (.returnStatement (some value) span :: _) _ =>
    (appendReturned d value).map fun d' => (d', span)
  | .statements (.returnStatement none span :: _) _ => .ok (d, span)
  | .statements (other :: _) _ => fault (.notReturn other.statementKind) other.span

def ofFunction (d : Draft) (parameters : List Node) (body : Body) : Except Malformed Draft := do
  let names ← parameterNames [] parameters
  let (d', span) ← appendBody d body
  checkPlaceholders d'.placeholders names span
  return d'

structure Entry where
  name : String
  span : Span
  value : Option Node

def entry? : Node → Option Entry
  | .property (.name text span) value _ => some ⟨text, span, some value⟩
  | .property (.string (some text) span) value _ => some ⟨text, span, some value⟩
  | .name text span => some ⟨text, span, none⟩
  | _ => none

def entryOf (f : Fault) (property : Node) : Except Malformed Entry :=
  match entry? property with
  | some entry => .ok entry
  | none => fault f property.span

def propertiesOf (f : Fault) (node : Node) : Except Malformed (List Node) :=
  match node.unparenthesized with
  | .object properties _ => .ok properties
  | other => fault f other.span

def valueNames (seen : List String) : List Node → Except Malformed (List String)
  | [] => .ok seen
  | property :: rest => do
    let entry ← entryOf .unplainValueKey property
    if !Name.isPlaceholder entry.name.toList then fault (.notCamelCase entry.name) entry.span
    else if seen.contains entry.name then fault (.duplicatePlaceholder entry.name) entry.span
    else valueNames (seen ++ [entry.name]) rest

def placeholderTexts (used : List String) (texts : Table String String) :
    List Node → Except Malformed (Table String String)
  | [] => .ok texts
  | property :: rest => do
    let entry ← entryOf .unplainKey property
    match entry.value.map Node.unparenthesized with
    | some (.string (some text) _) =>
      if !used.contains entry.name then fault (.unexpectedPlaceholder entry.name) entry.span
      else if texts.contains entry.name then fault (.duplicateKey entry.name) entry.span
      else placeholderTexts used (texts.insert entry.name text) rest
    | _ => fault .notString ((entry.value.map Node.span).getD entry.span)

def optionTexts (used : List String) (entry : Entry) : Except Malformed (Table String String) :=
  match entry.value with
  | none => fault .notObject entry.span
  | some value => do placeholderTexts used .empty (← propertiesOf .notObject value)

/-- Examples and code for the placeholders; all other options are ignored. -/
def applyOptions (used : List String) (d : Draft) : List Node → Except Malformed Draft
  | [] => .ok d
  | property :: rest => do
    let entry ← entryOf .unplainKey property
    if entry.name = "original_code" then
      let texts ← optionTexts used entry
      applyOptions used { d with code := texts } rest
    else if entry.name = "example" then
      let texts ← optionTexts used entry
      applyOptions used { d with examples := texts } rest
    else applyOptions used d rest

def spreadOf? : Node → Option Span
  | .spread _ span => some ⟨span.start, span.start + 3⟩
  | _ => none

def appendMessageText (d : Draft) (node : Node) : Except Malformed Draft := do
  let text ← textOf node
  match d.appendMessage text with
  | .ok d' => .ok d'
  | .error _ => fault (.badPlaceholder d.displayKey) node.span

def ofArguments (d : Draft) (span : Span) : List Node → Except Malformed Draft
  | [] => fault .noText span
  | text :: rest => do
    let d' ← appendMessageText d text
    let declared ← match rest with
      | [] => pure []
      | values :: _ => do valueNames [] (← propertiesOf .valuesNotObject values)
    let used := d'.placeholders
    let d'' ← match rest with
      | _ :: options :: _ => do applyOptions used d' (← propertiesOf .optionsNotObject options)
      | _ => pure d'
    checkPlaceholders used declared span
    return d''

def ofCall (d : Draft) (value : Node) : Except Malformed Draft :=
  match value.unparenthesized with
  | .call callee arguments span =>
    if !callee.isReferenceTo Name.messageFunction then fault .otherFunction callee.span
    else
      match arguments.findSome? spreadOf? with
      | some dots => fault .spreadArgument dots
      | none => ofArguments d span arguments
  | _ => fault .notCall value.span

end MessageCatalog.Definition
