import MessageCatalog.Issue
import MessageCatalog.Text.Width
/-! Reports: every issue with the line it points at, and a summary. -/

namespace MessageCatalog.Report

def successMark : String := "\u2713"

def failureMark : String := "\u2718"

def plural (count : Nat) (one many : String) : String :=
  if count = 1 then s!"{count} {one}" else s!"{count} {many}"

def spaces (n : Nat) : String := String.ofList (List.replicate n ' ')

def alignRight (gutter n : Nat) : String :=
  let digits := toString n
  spaces (gutter - digits.length) ++ digits

def gutterWidth (issues : List Issue) : Nat :=
  (toString (issues.foldl (fun n i => max n i.location.line) 0)).length

def heading (i : Issue) : String := s!"{i.severity.text}: {i.message}  {i.rule.text}"

def place (i : Issue) : String :=
  if 0 < i.location.line then s!"  --> {i.location.text}" else s!"  --> {i.location.file}"

/-- The columns in front of the caret: those of the characters before the reported column. -/
def caretPadding (sourceLine : String) (column : Nat) : Nat :=
  Text.lineWidth (sourceLine.toList.take (column - 1))

def snippet (gutter : Nat) (i : Issue) : List String :=
  match i.context?.bind (·.sourceLine) with
  | none => []
  | some sourceLine =>
    let padding := spaces (caretPadding sourceLine i.location.column)
    [ s!"{spaces gutter} |",
      s!"{alignRight gutter i.location.line} | {sourceLine}",
      s!"{spaces gutter} | {padding}^" ]

def remark (gutter : Nat) (label : String) : Option String → List String
  | some text => [s!"{spaces gutter} = {label} {text}"]
  | none => []

def block (gutter : Nat) (i : Issue) : List String :=
  [heading i, place i] ++ snippet gutter i ++ remark gutter "note:" i.note? ++
    remark gutter "hint:" i.hint? ++ [""]

def summary (issues : List Issue) : String :=
  let errors := (issues.filter (·.isError)).length
  let warnings := issues.length - errors
  let errorCount := plural errors "error" "errors"
  let warningCount := plural warnings "warning" "warnings"
  s!"{failureMark} {issues.length} problems ({errorCount}, {warningCount})"

def lines (issues : List Issue) : List String :=
  if issues.isEmpty then []
  else
    let sorted := Issue.sorted issues
    sorted.flatMap (block (gutterWidth sorted)) ++ [summary sorted]

def text (issues : List Issue) : String :=
  String.join ((lines issues).map (· ++ "\n"))

def success (files : Nat) (messages : Option Nat) : String :=
  let sources := plural files "source file" "source files"
  match messages with
  | some count =>
    let extracted := plural count "message" "messages"
    s!"{successMark} Extracted {extracted} from {sources} - no issues found\n"
  | none => s!"{successMark} Checked {sources} - no issues found\n"

end MessageCatalog.Report

namespace MessageCatalog

inductive ExitStatus where
  | success
  | failure
  | fatal
  deriving Repr, DecidableEq

namespace ExitStatus

def code : ExitStatus → Nat
  | .success => 0
  | .failure => 1
  | .fatal => 2

def ofIssues (issues : List Issue) : ExitStatus :=
  if issues.any (·.isError) then .failure else .success

end ExitStatus

end MessageCatalog
