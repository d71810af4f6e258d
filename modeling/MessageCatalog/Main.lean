import MessageCatalog.Cli.Outcome
/-! The command line: reads the files, runs a command on them, and writes what it changed. -/

namespace MessageCatalog.Cli

def overviewText : String :=
  "Usage: jsmsg [COMMAND]\n\n" ++
  "Commands:\n" ++
  "  check    Validate message definitions\n" ++
  "  extract  Extract validated messages as JSON\n" ++
  "  init     Create a default .jsmsgrc.json\n" ++
  "  help     Print this message\n\n" ++
  "Options of check and extract:\n" ++
  "      --source-root <DIR>      Where the sources and the project file are\n" ++
  "      --style <STYLE>          legacy, relax or closure\n" ++
  "      --id-generator <NAME>    key or fingerprint\n" ++
  "  -v, --verbose                Enable verbose output\n" ++
  "  -o, --output <FILE>          Where extract writes the messages\n"

def versionText : String := "jsmsg 0.1.0\n"

def UsageFault.text : UsageFault → String
  | .invalidValue => "a value is missing or invalid"
  | .unneededValue => "an option takes no value"
  | .unknownArgument => "unexpected argument"
  | .unknownCommand => "unrecognized command"
  | .repeatedOption => "an option is given twice"

def Command.sourceRoot? : Command → Option String
  | .check s => s.sourceRoot
  | .extract s _ => s.sourceRoot
  | .init sourceRoot => sourceRoot

def readEntry : Nat → String → IO (Option Entry)
  | 0, _ => return none
  | depth + 1, path => do
    try
      let mut entries : List (String × Entry) := []
      for item in ← (← IO.FS.realPath path).readDir do
        if let some e ← readEntry depth (Path.join path item.fileName) then
          entries := (item.fileName, e) :: entries
      return some (.directory entries)
    catch _ =>
      try return some (.file (← IO.FS.readBinFile path))
      catch _ => return none

def maxDepth : Nat := 64

def addPath (path : String) (depth : Nat) (fs : FileSystem) : IO FileSystem := do
  let names := (Path.pieces path.toList).filter (· ≠ ['.'])
  let enter := fun (place : List String) (piece : List Char) =>
    if piece = ['.', '.'] then place.dropLast else place ++ [String.ofList piece]
  let place := names.foldl enter (fs.start path)
  match ← readEntry depth path with
  | some e => return { fs with root := fs.root.alter (fun _ => e) place }
  | none => return fs

def readFiles (sourceRoot : Option String) : IO FileSystem := do
  let current := Path.pieces ((← IO.getEnv "PWD").getD "/").toList
  let mut fs : FileSystem := ⟨.emptyDirectory, current.map String.ofList⟩
  if let some root := sourceRoot then
    for outer in (Path.ancestors root.toList).drop 1 do
      let directory := String.ofList outer
      fs ← addPath (Path.join directory Config.fileName) 1 fs
      fs ← addPath (Path.join directory ".git") 1 fs
    fs ← addPath root maxDepth fs
  addPath "." maxDepth fs

def perform (command : Command) : IO UInt32 := do
  let fs ← readFiles command.sourceRoot?
  let outcome := command.outcome fs
  for (names, bytes) in fs.changes outcome.files do
    IO.FS.writeBinFile ("/" ++ "/".intercalate names) bytes
  IO.print outcome.stdout
  IO.eprint outcome.stderr
  return outcome.status.code.toUInt32

end MessageCatalog.Cli

open MessageCatalog in
def main (words : List String) : IO UInt32 := do
  match Cli.Request.ofWords (← IO.getEnv "JSMSG_STYLE") words with
  | .ok (.run command) => Cli.perform command
  | .ok .version =>
    IO.print Cli.versionText
    return 0
  | .ok _ =>
    IO.print Cli.overviewText
    return 0
  | .error fault =>
    IO.eprintln s!"error: {fault.text}\n\n{Cli.overviewText}"
    return ExitStatus.fatal.code.toUInt32
