import MessageCatalog.Script.Declared
/-! The order in which a file is visited, as a list of steps. The parts of a construct come before
the construct itself, so that a call is met before the definition it belongs to. -/

namespace MessageCatalog.Definition

open Script (Node Span VarKind)

inductive Kind where
  | variable
  | assignment
  | objectKey
  deriving Repr, DecidableEq

def Kind.text : Kind → String
  | .variable => "variable"
  | .assignment => "assignment"
  | .objectKey => "objectKey"

structure Site where
  kind : Kind
  name : String
  value : Option Node
  span : Span
  /-- Offsets of the tokens whose comments may describe the message, the better one first. -/
  docs : List Nat
  neighbours : List Node

inductive Step where
  | enter (names : List String)
  | exit
  | site (s : Site)
  | call (callee : Node) (arguments : List Node) (span : Span)

def declaratorSites (docs : List Nat) (neighbours : List Node) : List Node → List Step
  | [] => []
  | .declarator (.name text nameSpan) value _ :: ds =>
    .site ⟨.variable, text, value, nameSpan, docs, neighbours⟩ ::
      declaratorSites docs neighbours ds
  | _ :: ds => declaratorSites docs neighbours ds

def assignmentSites (statement : Option Nat) (operator : String) (target value : Node)
    (span : Span) : List Step :=
  match target with
  | .member _ text _ =>
    if operator = "=" then
      [.site ⟨.assignment, text, some value, span, [span.start, statement.getD span.start], []⟩]
    else []
  | _ => []

def propertySites (key value : Node) : List Step :=
  match key with
  | .name text span => [.site ⟨.objectKey, text, some value, span, [span.start], []⟩]
  | _ => []

def boundParameters (parameters : List Node) : List String := parameters.flatMap Node.boundNames

mutual

/-- The steps of a node; `statement` is where the expression statement around it starts. -/
def walk (statement : Option Nat) : Node → List Step
  | .name .. => []
  | .this .. => []
  | .string .. => []
  | .imports _ attributes _ => walkAll statement attributes
  | .template _ values _ => walkAll statement values
  | .paren inner _ => walk statement inner
  | .member base _ _ => walk statement base
  | .call callee arguments span =>
    walk statement callee ++ walkAll statement arguments ++ [.call callee arguments span]
  | .binary _ left right _ => walk statement left ++ walk statement right
  | .assign operator target value span =>
    walk statement target ++ walk statement value ++
      assignmentSites statement operator target value span
  | .function _ parameters body _ _ =>
    .enter (boundParameters parameters ++ Node.hoistedNamesOfAll body ++ Node.lexicalNames body) ::
      (walkAll statement parameters ++ walkStatements statement none body ++ [.exit])
  | .lambda parameters result _ =>
    .enter (boundParameters parameters) ::
      (walkAll statement parameters ++ walk statement result ++ [.exit])
  | .object properties _ => walkAll statement properties
  | .property key value _ =>
    walk statement key ++ walk statement value ++ propertySites key value
  | .method key body _ => walk statement key ++ walk statement body
  | .computed key _ => walk statement key
  | .spread value _ => walk statement value
  | .other _ parts _ => walkAll statement parts
  | .declarations _ declarators span =>
    walkAll statement declarators ++ declaratorSites [span.start] [] declarators
  | .declarator target value _ => walk statement target ++ walkOption statement value
  | .functionDeclaration _ body _ => walk statement body
  | .classDeclaration _ body _ => walk statement body
  | .expressionStatement value _ => walk statement value
  | .returnStatement value _ => walkOption statement value
  | .block statements _ =>
    .enter (Node.lexicalNames statements) :: (walkStatements statement none statements ++ [.exit])
  | .sequence statements _ => walkStatements statement none statements
  | .exported (.declarations _ declarators inner) span =>
    walkAll statement declarators ++ declaratorSites [span.start, inner.start] [] declarators
  | .exported declaration _ => walk statement declaration
  | .objectPattern properties _ => walkAll statement properties
  | .patternProperty key target _ => walk statement key ++ walk statement target
  | .arrayPattern elements _ => walkAll statement elements
  | .withDefault target value _ => walk statement target ++ walk statement value
  | .rest target _ => walk statement target

def walkAll (statement : Option Nat) : List Node → List Step
  | [] => []
  | n :: ns => walk statement n ++ walkAll statement ns

def walkOption (statement : Option Nat) : Option Node → List Step
  | none => []
  | some n => walk statement n

def walkStatements (statement : Option Nat) (before : Option Node) : List Node → List Step
  | [] => []
  | .declarations kind declarators span :: rest =>
    walkAll statement declarators ++
      declaratorSites [span.start] (before.toList ++ rest.head?.toList) declarators ++
      walkStatements statement (some (.declarations kind declarators span)) rest
  | .expressionStatement value span :: rest =>
    walk (some span.start) value ++
      walkStatements statement (some (.expressionStatement value span)) rest
  | n :: rest => walk statement n ++ walkStatements statement (some n) rest

end

def stepsOf (p : Script.Program) : List Step :=
  if p.isModule then
    .enter (Node.moduleNames p.items) :: (walkStatements none none p.items ++ [.exit])
  else walkStatements none none p.items

end MessageCatalog.Definition
