import MessageCatalog.Compilation
import MessageCatalog.Definition.Value
import MessageCatalog.Definition.Walk
import MessageCatalog.Message.DocComment
import MessageCatalog.Message.Registry
/-! A run over all files: every definition is checked, every message handed on, and every problem
reported, in the order of the steps. -/

namespace MessageCatalog.Definition

open Script (Node Span)

structure Settings where
  style : Style := .closure
  strategy : IdGenerator := .key
  lineMap : SourceMap := {}
  oldNames : Table String String := .empty

inductive Event where
  | message (message : Message) (kind : Kind) (valueSpan : Span) (location : Location)
  | fallback (span : Span) (first second : Message)
  | issue (issue : Issue)

structure CallSite where
  file : Nat
  span : Span
  deriving Repr, DecidableEq

structure State where
  scopes : Scopes := .empty
  registry : Registry := .empty
  /-- Calls of the message function that no definition has taken, oldest first. -/
  pending : List CallSite := []
  events : List Event := []

structure Surroundings where
  settings : Settings
  file : Nat
  source : Source

namespace Settings

def oldName (s : Settings) (name : String) : String := (s.oldNames.find? name).getD name

end Settings

namespace Surroundings

def locationAt (env : Surroundings) (span : Span) : Location :=
  let p := Text.position env.source.text span.start
  ⟨env.source.path, p.line, p.column⟩

def contextAt (env : Surroundings) (span : Span) : Context :=
  let p := Text.position env.source.text span.start
  match env.settings.lineMap.locate? env.source.path p.line p.column with
  | some mapped => ⟨⟨mapped.file, mapped.line, p.column⟩, none⟩
  | none => ⟨⟨env.source.path, p.line, p.column⟩, some (String.ofList p.lineText)⟩

def sourceNameAt (env : Surroundings) (span : Span) : String :=
  let location := (env.contextAt span).location
  s!"{location.file}:{location.line}"

def docCommentAt (env : Surroundings) (offsets : List Nat) : Option DocComment :=
  offsets.findSome? fun offset =>
    DocComment.find? ((env.source.commentsAt offset).map Comment.block)

def annotate (env : Surroundings) (site : Site) (d : Draft) : Draft :=
  match env.docCommentAt site.docs with
  | some doc => doc.applyTo d
  | none => d

end Surroundings

/-- Whether the value is another message under its own name, which may be given a second one. -/
def isAlias (s : Settings) (value : Node) : Bool :=
  match value.unparenthesized with
  | .name text _ => Name.startsWith Name.messageMark (s.oldName text).toList
  | .member base last span =>
    (Node.member base last span).dottedName.isSome &&
      Name.startsWith Name.messageMark (s.oldName last).toList
  | _ => false

def companion? (name : String) : Node → Option (Option Node × Span)
  | .declarations .var (.declarator (.name text _) value span :: _) _ =>
    if text = name then some (value, span) else none
  | _ => none

def describeBy (d : Draft) (value : Option Node) (span : Span) : Except Malformed Draft :=
  match value with
  | none => fault (.notText "nothing") span
  | some node => do
    let text ← textOf node
    match Text.dropLead? Name.hiddenMark text.toList with
    | some rest => return (d.setHidden true).setDesc (String.ofList (Text.trim rest))
    | none => return d.setDesc text

/-- A message that is no call is described by its documentation comment, or else by the variable
beside it whose name ends in `_HELP`. -/
def describeLegacy (env : Surroundings) (site : Site) (d : Draft) : Except Malformed Draft :=
  let doc := env.docCommentAt site.docs
  let d' := env.annotate site d
  if (doc.bind (·.desc)).isSome then .ok d'
  else
    match d'.key with
    | none => .ok d'
    | some key =>
      match site.neighbours.findSome? (companion? (key ++ String.ofList Name.helpMark)) with
      | some (value, span) => describeBy d' value span
      | none => .ok d'

def draftOfVariable (env : Surroundings) (site : Site) (d : Draft) (value : Node) :
    Except Malformed Draft := do
  match ← classify d.displayKey value with
  | .text node =>
    let d' ← describeLegacy env site d
    return d'.appendText (← textOf node)
  | .function parameters body => ofFunction (← describeLegacy env site d) parameters body
  | .call node => ofCall (env.annotate site d) node

def draftOf (env : Surroundings) (site : Site) (d : Draft) (value : Node) :
    Except Malformed Draft :=
  match site.kind with
  | .variable => draftOfVariable env site d value
  | _ => ofCall (env.annotate site d) value

inductive Outcome where
  | ignored
  | noValue
  | refused
  | malformed (m : Malformed)
  | defined (message : Message)

structure Candidate where
  site : Site
  name : String
  key : String
  isCall : Bool
  outcome : Outcome

def Candidate.isUnnamed (c : Candidate) : Bool := Name.isUnnamed c.key.toList

def outcomeOf (env : Surroundings) (site : Site) (name key : String) (isCall : Bool) : Outcome :=
  let style := env.settings.style
  if !Name.isMessage name.toList isCall style then .ignored
  else
    match site.value with
    | none => .noValue
    | some value =>
      if isAlias env.settings value then .ignored
      else if !isCall && style.isStrict then .refused
      else
        let draft : Draft :=
          { key := if Name.isUnnamed key.toList then none else some key
            sourceName := env.sourceNameAt site.span }
        match draftOf env site draft value with
        | .error m => .malformed m
        | .ok d => .defined (d.build env.settings.strategy)

def candidateOf (env : Surroundings) (site : Site) : Candidate :=
  let name := env.settings.oldName site.name
  let key := String.ofList (Name.unscoped name.toList)
  let isCall := (site.value.map fun v => v.unparenthesized.isCall).getD false
  ⟨site, name, key, isCall, outcomeOf env site name key isCall⟩

def Candidate.isConsidered (c : Candidate) : Bool :=
  match c.outcome with
  | .ignored => false
  | .noValue => false
  | _ => true

/-- A call that is the value of a message is no orphan, even if the message is malformed. -/
def takeCall (env : Surroundings) (c : Candidate) (pending : List CallSite) : List CallSite :=
  match c.site.value with
  | some value =>
    if c.isCall && c.isConsidered then
      pending.filter (· ≠ ⟨env.file, value.unparenthesized.span⟩)
    else pending
  | none => pending

def legacyIssues (env : Surroundings) (c : Candidate) : List Issue :=
  let style := env.settings.style
  if c.isConsidered && !c.isCall && style != .legacy then
    [.legacyValue (env.contextAt c.site.span) c.name style.checkLevel]
  else []

def messageIssues (env : Surroundings) (registry : Registry) (c : Candidate) (value : Node)
    (m : Message) : List Issue :=
  let here := env.contextAt c.site.span
  let duplicate := match registry.locationOf? c.key with
    | some previous =>
      if c.isUnnamed || m.isExternal then []
      else [Issue.duplicateKey (env.contextAt value.span) c.key previous]
    | none => []
  let empty := if m.isEmpty then [Issue.emptyText here c.key] else []
  let undescribed :=
    if c.isCall && !m.isDescribed && !m.isExternal then
      [Issue.noDescription here c.key env.settings.style.checkLevel]
    else []
  duplicate ++ empty ++ undescribed

/-- Unnamed messages go under the binding of the name as written, if it has one. -/
def register (env : Surroundings) (scopes : Scopes) (registry : Registry) (c : Candidate)
    (value : Node) (m : Message) : Registry :=
  if c.isUnnamed then
    match scopes.resolve c.site.name with
    | some binding => registry.addUnnamed binding m
    | none => registry
  else registry.addNamed c.key m (env.locationAt value.span)

def outcomeEvents (env : Surroundings) (registry : Registry) (c : Candidate) : List Event :=
  match c.outcome, c.site.value with
  | .noValue, _ => [.issue (.noValue (env.contextAt c.site.span) c.name)]
  | .malformed m, _ => [.issue (.malformed (env.contextAt m.span) m.fault.reason)]
  | .defined m, some value =>
    (messageIssues env registry c value m).map .issue ++
      [.message m c.site.kind value.span (env.locationAt value.span)]
  | _, _ => []

def checkSite (env : Surroundings) (site : Site) (state : State) : State :=
  let c := candidateOf env site
  { state with
    pending := takeCall env c state.pending
    events := state.events ++ (legacyIssues env c).map .issue ++
      outcomeEvents env state.registry c
    registry := match c.outcome, site.value with
      | .defined m, some value => register env state.scopes state.registry c value m
      | _, _ => state.registry }

def reference? (argument : Node) : Option (String × Span) :=
  match argument.dottedName with
  | some name =>
    if Text.occurs Name.messageMark name.toList then some (name, argument.span) else none
  | none => none

def references? : List Node → Option ((String × Span) × (String × Span))
  | [a, b] =>
    match reference? a, reference? b with
    | some x, some y => some (x, y)
    | _, _ => none
  | _ => none

def fallbackEvent (env : Surroundings) (scopes : Scopes) (registry : Registry)
    (arguments : List Node) (span : Span) : Event :=
  match references? arguments with
  | none => .issue (.badFallback (env.contextAt span))
  | some ((first, firstSpan), (second, secondSpan)) =>
    match registry.lookup? scopes first with
    | none => .issue (.fallbackArgument (env.contextAt firstSpan) first)
    | some m =>
      match registry.lookup? scopes second with
      | none => .issue (.fallbackArgument (env.contextAt secondSpan) second)
      | some m' => .fallback span m m'

def checkCall (env : Surroundings) (callee : Node) (arguments : List Node) (span : Span)
    (state : State) : State :=
  if callee.isReferenceTo Name.messageFunction then
    let site : CallSite := ⟨env.file, span⟩
    if state.pending.contains site then state
    else { state with pending := state.pending ++ [site] }
  else if callee.isReferenceTo Name.fallbackFunction then
    { state with
      events := state.events ++ [fallbackEvent env state.scopes state.registry arguments span] }
  else state

def perform (env : Surroundings) (state : State) : Step → State
  | .enter names => { state with scopes := state.scopes.enter.declareAll names }
  | .exit => { state with scopes := state.scopes.exit }
  | .site site => checkSite env site state
  | .call callee arguments span => checkCall env callee arguments span state

def performAll (env : Surroundings) (steps : List Step) (state : State) : State :=
  steps.foldl (perform env) state

def globalNames (c : Compilation) : List String :=
  c.externs.flatMap (·.program.topNames) ++
    (c.sources.filter (!·.program.isModule)).flatMap (·.program.topNames)

def visitSources (settings : Settings) (file : Nat) (state : State) : List Source → State
  | [] => state
  | s :: rest =>
    let env : Surroundings := ⟨settings, file, s⟩
    visitSources settings (file + 1) (performAll env (stepsOf s.program) state) rest

def orphanEvents (settings : Settings) (sources : List Source) (call : CallSite) : List Event :=
  match sources[call.file]? with
  | some source =>
    let env : Surroundings := ⟨settings, call.file, source⟩
    [.issue (.orphanedCall (env.contextAt call.span) settings.style.checkLevel)]
  | none => []

def run (settings : Settings) (c : Compilation) : List Event :=
  let start : State := { scopes := Scopes.empty.declareAll (globalNames c) }
  let state := visitSources settings 0 start c.sources
  state.events ++ state.pending.flatMap (orphanEvents settings c.sources)

namespace Event

def issues (events : List Event) : List Issue :=
  events.filterMap fun
    | .issue i => some i
    | _ => none

def messages (events : List Event) : List Message :=
  events.filterMap fun
    | .message m .. => some m
    | _ => none

def fallbacks (events : List Event) : List (String × String) :=
  events.filterMap fun
    | .fallback _ first second => some (first.id, second.id)
    | _ => none

end Event

/-- All that is reported of a compilation: the files that take no part in the run, and the issues of
the run, in the order of a report. -/
def reported (c : Compilation) (events : List Event) : List Issue :=
  Issue.sorted (c.unreadable.map (·.issue) ++ Event.issues events)

end MessageCatalog.Definition
