import MessageCatalog.Compilation
import MessageCatalog.Project.Config
import MessageCatalog.Project.Scan
/-! A project as its file and its source root describe it, and the files it is made of. -/

namespace MessageCatalog

structure Project where
  config : Config
  files : List String
  externs : List String
  warnings : List Warning
  deriving Repr

namespace Project

structure Overrides where
  style : Option Style := none
  strategy : Option IdStrategy := none
  deriving Repr, DecidableEq

def Overrides.applyTo (o : Overrides) (c : Config) : Config :=
  { c with style := o.style.getD c.style, strategy := o.strategy.getD c.strategy }

def load (fs : FileSystem) (root : String) (overrides : Overrides) :
    Except Config.LoadFault Project := do
  let config := overrides.applyTo (← Config.load fs root)
  let externs := config.externs.map (Path.join root)
  let found := scan fs root config.includes config.ignores config.ignoreTestFiles
  return {
    config := config
    files := found.files.filter (!externs.contains ·)
    externs := externs
    warnings := found.warnings ++ if 0 < found.skipped then [.skipped found.skipped] else [] }

def readAll (fs : FileSystem) (paths : List String) :
    List (String × String) × List (String × FileFault) :=
  paths.foldr
    (fun path (texts, faults) =>
      match fs.readText path with
      | .ok text => ((path, text) :: texts, faults)
      | .error fault => (texts, (path, fault) :: faults))
    ([], [])

def compile (fs : FileSystem) (p : Project) : Compilation × List Warning :=
  let (externs, externFaults) := readAll fs p.externs
  let (sources, sourceFaults) := readAll fs p.files
  let faults := externFaults ++ sourceFaults
  let parsed := Compilation.ofFiles externs sources
  let unreadable := faults.map fun (path, fault) =>
    (⟨path, s!"Failed to read file: {fault.text}"⟩ : Unreadable)
  let all := (unreadable ++ parsed.unreadable).mergeSort fun a b => pathOrder a.path b.path
  ({ parsed with unreadable := all },
    faults.map (fun (path, fault) => Warning.unreadable path fault) ++
      parsed.unreadable.map fun u => Warning.unparsable u.path u.reason)

end Project

end MessageCatalog
