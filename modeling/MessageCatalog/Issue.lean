import MessageCatalog.Location
import MessageCatalog.Message.Name
/-! The problems that a run reports, their wording and their order. -/

namespace MessageCatalog

/-- The kinds of problem, in the order in which a report lists them. -/
inductive Rule where
  | noDescription
  | emptyText
  | malformed
  | noValue
  | duplicateKey
  | orphanedCall
  | legacyValue
  | badFallback
  | fallbackArgument
  | unreadable
  deriving Repr, DecidableEq

namespace Rule

def text : Rule → String
  | .noDescription => "msg-no-description"
  | .emptyText => "msg-empty-text"
  | .malformed => "msg-malformed"
  | .noValue => "msg-no-value"
  | .duplicateKey => "msg-duplicate-key"
  | .orphanedCall => "msg-orphaned-call"
  | .legacyValue => "msg-legacy-syntax"
  | .badFallback => "msg-bad-fallback"
  | .fallbackArgument => "msg-fallback-arg"
  | .unreadable => "parse-error"

def all : List Rule :=
  [.noDescription, .emptyText, .malformed, .noValue, .duplicateKey, .orphanedCall, .legacyValue,
    .badFallback, .fallbackArgument, .unreadable]

def ofText? (text : String) : Option Rule := all.find? (·.text = text)

def rank : Rule → Nat
  | .noDescription => 0
  | .emptyText => 1
  | .malformed => 2
  | .noValue => 3
  | .duplicateKey => 4
  | .orphanedCall => 5
  | .legacyValue => 6
  | .badFallback => 7
  | .fallbackArgument => 8
  | .unreadable => 9

end Rule

inductive Issue where
  | noDescription (context : Context) (key : String) (severity : Severity)
  | emptyText (context : Context) (key : String)
  | malformed (context : Context) (reason : String)
  | noValue (context : Context) (key : String)
  | duplicateKey (context : Context) (key : String) (previous : Location)
  | orphanedCall (context : Context) (severity : Severity)
  | legacyValue (context : Context) (key : String) (severity : Severity)
  | badFallback (context : Context)
  | fallbackArgument (context : Context) (reference : String)
  | unreadable (file : String) (reason : String)
  deriving Repr, DecidableEq

namespace Issue

def rule : Issue → Rule
  | .noDescription .. => .noDescription
  | .emptyText .. => .emptyText
  | .malformed .. => .malformed
  | .noValue .. => .noValue
  | .duplicateKey .. => .duplicateKey
  | .orphanedCall .. => .orphanedCall
  | .legacyValue .. => .legacyValue
  | .badFallback .. => .badFallback
  | .fallbackArgument .. => .fallbackArgument
  | .unreadable .. => .unreadable

def severity : Issue → Severity
  | .noDescription _ _ severity => severity
  | .orphanedCall _ severity => severity
  | .legacyValue _ _ severity => severity
  | .emptyText .. => .warning
  | .malformed .. => .error
  | .noValue .. => .error
  | .duplicateKey .. => .error
  | .badFallback .. => .error
  | .fallbackArgument .. => .error
  | .unreadable .. => .error

def isError (i : Issue) : Bool := i.severity = .error

def context? : Issue → Option Context
  | .noDescription context .. => some context
  | .emptyText context .. => some context
  | .malformed context .. => some context
  | .noValue context .. => some context
  | .duplicateKey context .. => some context
  | .orphanedCall context .. => some context
  | .legacyValue context .. => some context
  | .badFallback context => some context
  | .fallbackArgument context .. => some context
  | .unreadable .. => none

def location : Issue → Location
  | .unreadable file _ => ⟨file, 0, 0⟩
  | i =>
    match i.context? with
    | some context => context.location
    | none => ⟨"", 0, 0⟩

def message : Issue → String
  | .noDescription _ key _ => s!"Message {key} has no description"
  | .emptyText _ key =>
    s!"Message value of {key} is just an empty string. Empty messages are forbidden"
  | .malformed _ reason => s!"Message parse tree malformed. {reason}"
  | .noValue _ key => s!"Message {key} has no value"
  | .duplicateKey _ key _ => s!"Duplicate message variable name found for {key}"
  | .orphanedCall .. =>
    s!"{Name.messageFunction}() function could be used only with MSG_* property or variable"
  | .legacyValue _ key _ => s!"Message {key} not initialized using {Name.messageFunction}"
  | .badFallback _ => s!"Bad syntax. Expected syntax: {Name.fallbackFunction}(MSG_1, MSG_2)"
  | .fallbackArgument _ reference =>
    s!"Could not find message entry for fallback argument {reference}"
  | .unreadable _ reason => reason

def note? : Issue → Option String
  | .duplicateKey _ _ previous => some s!"initial definition {previous.file}:{previous.line}"
  | _ => none

def hint? : Issue → Option String
  | .noDescription .. => some "add a @desc JSDoc tag to the definition"
  | _ => none

/-- By file, line, column, rule and wording, each compared only if all before it agree. -/
def order (a b : Issue) : Ordering :=
  (Text.compareBytes a.location.file.toList b.location.file.toList).then <|
  (compare a.location.line b.location.line).then <|
  (compare a.location.column b.location.column).then <|
  (compare a.rule.rank b.rule.rank).then <|
  Text.compareBytes a.message.toList b.message.toList

def sorted (issues : List Issue) : List Issue :=
  issues.mergeSort fun a b => (a.order b).isLE

end Issue

end MessageCatalog
