import MessageCatalog.Project.Roots
/-! The source files of a project. -/

namespace MessageCatalog.Project

def sourceExtensions : List String := ["js", "jsx", "mjs", "cjs", "ts", "tsx", "mts", "cts"]

def isSource (path : String) : Bool :=
  match Path.extension? path.toList with
  | some extension => sourceExtensions.contains (String.ofList extension)
  | none => false

def testPatterns : List String :=
  [ "**/*_test.js", "**/*.test.js", "**/*.test.ts", "**/*.spec.js", "**/*.spec.ts",
    "**/__tests__/**" ]

structure Filter where
  places : List String
  patterns : List (List Glob.Piece)
  deriving Repr

namespace Filter

def ofIgnores (base : String) (ignores : List String) (ignoreTestFiles : Bool) : Filter where
  places := (ignores.filter (!Glob.hasWildcard ·)).map (Path.join base)
  patterns :=
    (ignores.filter Glob.hasWildcard ++ if ignoreTestFiles then testPatterns else []).filterMap
      fun pattern => (Glob.parse pattern).toOption

def excludes (f : Filter) (path : String) : Bool :=
  f.places.any (fun place => Path.isWithin place.toList path.toList) ||
    f.patterns.any (Glob.matchesText · path.toList)

def warnings (ignores : List String) : List Warning :=
  (ignores.filter Glob.hasWildcard).filterMap fun pattern =>
    match Glob.parse pattern with
    | .ok _ => none
    | .error problem => some (.badIgnore pattern problem)

end Filter

mutual

/-- The sources at or below a path. What the filter excludes is not entered. -/
def walk (f : Filter) (path : String) : Entry → List String
  | .file _ => if f.excludes path || !isSource path then [] else [path]
  | .directory entries => if f.excludes path then [] else walkIn f path entries

def walkIn (f : Filter) (path : String) : List (String × Entry) → List String
  | [] => []
  | (name, e) :: rest => walk f (Path.join path name) e ++ walkIn f path rest

end

def pathOrder (a b : String) : Bool := (Text.compareBytes a.toList b.toList).isLE

structure Scan where
  files : List String
  skipped : Nat
  warnings : List Warning
  deriving Repr

def scan (fs : FileSystem) (base : String) (includes ignores : List String)
    (ignoreTestFiles : Bool) : Scan :=
  let filter := Filter.ofIgnores base ignores ignoreTestFiles
  let (starts, complaints) := roots fs base includes
  let files := starts.flatMap fun start =>
    match fs.entry start with
    | .ok e => walk filter start e
    | .error _ => []
  let missing := starts.filterMap fun start =>
    match fs.entry start with
    | .ok _ => none
    | .error fault => some (Warning.inaccessible start fault)
  { files := (files.mergeSort pathOrder).eraseDups
    skipped := missing.length
    warnings := Filter.warnings ignores ++ complaints ++ missing }

end MessageCatalog.Project
