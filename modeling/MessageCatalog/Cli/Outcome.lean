import MessageCatalog.Cli.Arguments
import MessageCatalog.Definition.Run
import MessageCatalog.Json.Printer
import MessageCatalog.Message.Catalog
import MessageCatalog.Report
/-! What the commands do: what they print, what they write, and how they end. -/

namespace MessageCatalog.Cli

structure Outcome where
  status : ExitStatus
  stdout : String := ""
  stderr : String := ""
  files : FileSystem

inductive Fatal where
  | config (fault : Config.LoadFault)
  | unwritable (path : String) (fault : FileFault)
  deriving Repr, DecidableEq

def Fatal.message : Fatal → String
  | .config fault => fault.message
  | .unwritable path fault => s!"Failed to write {path}: {fault.text}"

def Outcome.fatal (fs : FileSystem) (log : String) (reason : Fatal) : Outcome :=
  { status := .fatal, stderr := s!"{log}Error: {reason.message}\n", files := fs }

structure Pass where
  fileCount : Nat
  issues : List Issue
  catalog : Catalog
  log : String
  deriving Repr

def Pass.run (fs : FileSystem) (s : Selection) : Except Config.LoadFault Pass := do
  let project ← Project.load fs (s.sourceRoot.getD ".") s.overrides
  let (files, warnings) := project.compile fs
  let settings : Definition.Settings :=
    { style := project.config.style, strategy := project.config.strategy }
  let events := Definition.run settings files
  return {
    fileCount := project.files.length
    issues := Definition.reported files events
    catalog := ⟨Definition.Event.messages events, Definition.Event.fallbacks events⟩
    log := Warning.log (project.warnings ++ warnings) }

def check (fs : FileSystem) (s : Selection) : Outcome :=
  match Pass.run fs s with
  | .error fault => .fatal fs "" (.config fault)
  | .ok pass =>
    { status := ExitStatus.ofIssues pass.issues
      stdout :=
        if pass.issues.isEmpty then Report.success pass.fileCount none
        else Report.text pass.issues
      stderr := pass.log
      files := fs }

/-- Write the messages as JSON. The report goes where it cannot mix with them. -/
def extract (fs : FileSystem) (s : Selection) (output : Option String) : Outcome :=
  match Pass.run fs s with
  | .error fault => .fatal fs "" (.config fault)
  | .ok pass =>
    let json := pass.catalog.toJson.text ++ "\n"
    let status := ExitStatus.ofIssues pass.issues
    match output with
    | none =>
      { status := status
        stdout := json
        stderr := pass.log ++ Report.text pass.issues
        files := fs }
    | some path =>
      match fs.writeText path json with
      | .error fault => .fatal fs pass.log (.unwritable path fault)
      | .ok after =>
        let report :=
          if pass.issues.isEmpty then
            Report.success pass.fileCount (some pass.catalog.messages.length)
          else Report.text pass.issues
        { status := status, stderr := pass.log ++ report, files := after }

def init (fs : FileSystem) (sourceRoot : Option String) : Outcome :=
  let path := Path.join (sourceRoot.getD ".") Config.fileName
  if fs.contains path then
    { status := .failure, stderr := s!"Error: {Config.fileName} already exists\n", files := fs }
  else
    match fs.writeText path (Config.toJson {}).text with
    | .error fault => .fatal fs "" (.unwritable path fault)
    | .ok after =>
      let created := s!"{Report.successMark} Created {Config.fileName}\n"
      { status := .success
        stdout := created ++ "  Run \x60jsmsg check\x60 to validate message definitions.\n"
        files := after }

def Command.outcome (fs : FileSystem) : Command → Outcome
  | .check s => Cli.check fs s
  | .extract s output => Cli.extract fs s output
  | .init sourceRoot => Cli.init fs sourceRoot

end MessageCatalog.Cli
