import MessageCatalog.FileSystem
import MessageCatalog.Glob
/-! What goes wrong without stopping a command. -/

namespace MessageCatalog

inductive Warning where
  | badIgnore (pattern : String) (problem : Glob.Malformed)
  | badInclude (pattern : String) (problem : Glob.Malformed)
  | missingInclude (path : String)
  | inaccessible (path : String) (fault : FileFault)
  | skipped (count : Nat)
  | unreadable (path : String) (fault : FileFault)
  | unparsable (path reason : String)
  deriving Repr, DecidableEq

namespace Warning

def message : Warning → String
  | .badIgnore pattern problem =>
    s!"invalid ignore pattern: {problem.message} pattern={pattern}"
  | .badInclude pattern problem =>
    s!"invalid include pattern: {problem.message} pattern={pattern}"
  | .missingInclude path => s!"include path does not exist: {path}"
  | .inaccessible path fault =>
    s!"cannot access path: IO error for operation on {path}: {fault.text}"
  | .skipped count => s!"{count} path(s) skipped due to access errors"
  | .unreadable path fault => s!"failed to read file: {fault.text} file={path}"
  | .unparsable path reason => s!"failed to parse: {reason} file={path}"

def line (w : Warning) : String := " WARN " ++ w.message

def log (warnings : List Warning) : String :=
  String.join (warnings.map fun w => w.line ++ "\n")

end Warning

end MessageCatalog
