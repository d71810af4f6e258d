import MessageCatalog.Project.Load
import MessageCatalog.Text.Blank
/-! The words after the program's name, and the command that they ask for. -/

namespace MessageCatalog.Cli

structure Selection where
  sourceRoot : Option String := none
  overrides : Project.Overrides := {}
  deriving Repr, DecidableEq

inductive Command where
  | check (selection : Selection)
  | extract (selection : Selection) (output : Option String)
  | init (sourceRoot : Option String)
  deriving Repr, DecidableEq

inductive Request where
  | run (command : Command)
  | overview
  | help
  | version
  deriving Repr, DecidableEq

inductive UsageFault where
  | invalidValue
  | unneededValue
  | unknownArgument
  | unknownCommand
  | repeatedOption
  deriving Repr, DecidableEq

inductive Verb where
  | check
  | extract
  | init
  deriving Repr, DecidableEq

inductive Switch where
  | sourceRoot
  | style
  | idGenerator
  | verbose
  | output
  | help
  deriving Repr, DecidableEq

def Verb.ofText? : String → Option Verb
  | "check" => some .check
  | "extract" => some .extract
  | "init" => some .init
  | _ => none

namespace Switch

def ofLong? : String → Option Switch
  | "source-root" => some .sourceRoot
  | "style" => some .style
  | "id-generator" => some .idGenerator
  | "verbose" => some .verbose
  | "output" => some .output
  | "help" => some .help
  | _ => none

def ofShort? : Char → Option Switch
  | 'v' => some .verbose
  | 'o' => some .output
  | 'h' => some .help
  | _ => none

def takesValue : Switch → Bool
  | .verbose => false
  | .help => false
  | _ => true

def belongsTo : Switch → Verb → Bool
  | .output, v => v = .extract
  | .sourceRoot, _ => true
  | .help, _ => true
  | _, v => v ≠ .init

end Switch

structure Given where
  sourceRoot : Option String := none
  style : Option Style := none
  strategy : Option IdStrategy := none
  verbose : Bool := false
  output : Option String := none
  deriving Repr, DecidableEq

namespace Given

def fill {α : Type} (old : Option α) (new : Option α) : Except UsageFault (Option α) :=
  match old, new with
  | some _, _ => .error .repeatedOption
  | none, none => .error .invalidValue
  | none, some value => .ok (some value)

def pathOf? (text : String) : Option String := if text = "" then none else some text

def set (g : Given) (switch : Switch) (value : String) : Except UsageFault Given :=
  match switch with
  | .sourceRoot => return { g with sourceRoot := ← fill g.sourceRoot (pathOf? value) }
  | .output => return { g with output := ← fill g.output (pathOf? value) }
  | .style => return { g with style := ← fill g.style (Style.ofText? value) }
  | .idGenerator => return { g with strategy := ← fill g.strategy (IdStrategy.ofText? value) }
  | .verbose => .error .unneededValue
  | .help => .error .unneededValue

end Given

/-- A switch that takes a value, and its value if that has been read. It counts only when the next
switch or the end shows that it is complete. -/
structure Pending where
  switch : Switch
  value : Option String
  deriving Repr, DecidableEq

structure Progress where
  given : Given := {}
  pending : Option Pending := none
  deriving Repr, DecidableEq

namespace Progress

def settle (p : Progress) : Except UsageFault Given :=
  match p.pending with
  | none => .ok p.given
  | some ⟨_, none⟩ => .error .invalidValue
  | some ⟨switch, some value⟩ => p.given.set switch value

def setVerbose (g : Given) : Except UsageFault Progress :=
  if g.verbose then .error .repeatedOption else .ok { given := { g with verbose := true } }

end Progress

inductive Step where
  | next (progress : Progress)
  | help
  deriving Repr, DecidableEq

def longStep (verb : Verb) (p : Progress) (word : List Char) : Except UsageFault Step := do
  let name := word.takeWhile (· != '=')
  let value? := (word.drop name.length).tail?
  match (Switch.ofLong? (String.ofList name)).filter (·.belongsTo verb) with
  | none => .error .unknownArgument
  | some switch =>
    if switch.takesValue then
      let given ← p.settle
      match value? with
      | some value => return .next { given := ← given.set switch (String.ofList value) }
      | none => return .next { given := given, pending := some ⟨switch, none⟩ }
    else if value?.isSome then .error .unneededValue
    else
      let given ← p.settle
      if switch = .help then return .help else return .next (← Progress.setVerbose given)

def shortSteps (verb : Verb) (p : Progress) : List Char → Except UsageFault Step
  | [] => .ok (.next p)
  | c :: rest => do
    match (Switch.ofShort? c).filter (·.belongsTo verb) with
    | none => .error .unknownArgument
    | some switch =>
      let given ← p.settle
      if switch = .help then return .help
      else if switch = .verbose then shortSteps verb (← Progress.setVerbose given) rest
      else
        match rest with
        | [] => return .next { given := given, pending := some ⟨switch, none⟩ }
        | '=' :: value => return .next { given := ← given.set switch (String.ofList value) }
        | value => return .next { given := ← given.set switch (String.ofList value) }

def plainStep (p : Progress) (word : String) : Except UsageFault Step :=
  match p.pending with
  | some ⟨switch, none⟩ => .ok (.next { p with pending := some ⟨switch, some word⟩ })
  | _ => .error .unknownArgument

def wordStep (verb : Verb) (p : Progress) (word : String) : Except UsageFault Step :=
  match word.toList with
  | '-' :: '-' :: c :: rest => longStep verb p (c :: rest)
  | '-' :: c :: rest => shortSteps verb p (c :: rest)
  | _ => plainStep p word

/-- The switches of a command, or `none` where help is asked for. After two dashes no word may
follow. -/
def readSwitches (verb : Verb) (p : Progress) : List String → Except UsageFault (Option Given)
  | [] => return some (← p.settle)
  | word :: rest =>
    if word = "--" then
      if rest.isEmpty then return some (← p.settle) else .error .unknownArgument
    else do
      match ← wordStep verb p word with
      | .help => return none
      | .next p => readSwitches verb p rest

def selection (environment : Option String) (g : Given) : Except UsageFault Selection := do
  let style ← match g.style, environment with
    | some style, _ => pure (some style)
    | none, none => pure none
    | none, some text => Given.fill none (Style.ofText? text)
  return { sourceRoot := g.sourceRoot, overrides := { style := style, strategy := g.strategy } }

def commandOf (verb : Verb) (environment : Option String) (g : Given) :
    Except UsageFault Command := do
  match verb with
  | .check => return .check (← selection environment g)
  | .extract => return .extract (← selection environment g) g.output
  | .init => return .init g.sourceRoot

def helpOn : List String → Except UsageFault Request
  | [] => .ok .help
  | [topic] =>
    if topic = "help" || (Verb.ofText? topic).isSome then .ok .help else .error .unknownCommand
  | _ => .error .unknownCommand

def leadingSwitch (word : String) : Except UsageFault Request :=
  match word.toList with
  | '-' :: '-' :: c :: rest =>
    let name := (c :: rest).takeWhile (· != '=')
    let hasValue := name.length < rest.length + 1
    match String.ofList name with
    | "help" => if hasValue then .error .unneededValue else .ok .help
    | "version" => if hasValue then .error .unneededValue else .ok .version
    | _ => .error .unknownArgument
  | '-' :: 'h' :: _ => .ok .help
  | '-' :: 'V' :: _ => .ok .version
  | '-' :: _ :: _ => .error .unknownArgument
  | _ => .error .unknownCommand

def Request.ofWords (environment : Option String) : List String → Except UsageFault Request
  | [] => .ok .overview
  | "help" :: topics => helpOn topics
  | "--" :: rest =>
    match rest with
    | [] => .ok .overview
    | word :: _ =>
      if word = "help" || (Verb.ofText? word).isSome then .error .unknownArgument
      else .error .unknownCommand
  | word :: rest =>
    match Verb.ofText? word with
    | none => leadingSwitch word
    | some verb => do
      match ← readSwitches verb {} rest with
      | none => return .help
      | some given => return .run (← commandOf verb environment given)

end MessageCatalog.Cli
