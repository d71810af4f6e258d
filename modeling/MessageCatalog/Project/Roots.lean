import MessageCatalog.Project.Warning
/-! Where the search for sources starts: the directories and files that a project includes. -/

namespace MessageCatalog.Project

structure Component where
  pieces : List Glob.Piece
  deriving Repr, DecidableEq

namespace Component

def holds (c : Component) (name : String) : Bool := Glob.matchesText c.pieces name.toList

def literal? (c : Component) : Option String :=
  let chars := c.pieces.mapM fun
    | .char d => some d
    | _ => none
  chars.map String.ofList

def isRecursive (c : Component) : Bool := c.pieces = [.directories]

def startsWithDot (c : Component) : Bool := c.pieces.head? = some (.char '.')

/-- The components of a pattern below its root, without the empty one after a slash at the end.
Recursive ones in a row count once. -/
def ofPattern (pattern : List Char) : Except Glob.Malformed (List Component) := do
  let texts := Text.splitAt '/' pattern
  let texts := if texts.getLast? = some [] then texts.dropLast else texts
  let components ← texts.mapM fun text => return ⟨← Glob.parse (String.ofList text)⟩
  return components.foldr
    (fun c rest => if c.isRecursive && rest.head?.any (·.isRecursive) then rest else c :: rest) []

end Component

def pathBelow (directory name : String) : String :=
  if Path.components directory.toList = [['.']] then name else Path.join directory name

structure Found where
  path : String
  name : String
  entry : Entry

mutual

def below (directory : String) : Entry → List Found
  | .file _ => []
  | .directory entries => belowIn directory entries

def belowIn (directory : String) : List (String × Entry) → List Found
  | [] => []
  | (name, e) :: rest =>
    let path := pathBelow directory name
    ⟨path, name, e⟩ :: below path e ++ belowIn directory rest

end

/-- The paths that the components lead to from a directory. Where a component has wildcards, only
names in the directory count, and those of the directory itself and of its parent only if it
starts with a dot. -/
def expand (fs : FileSystem) : List Component → String → List String
  | [], path => [path]
  | [c], path =>
    if c.isRecursive then
      match fs.entry path with
      | .ok e => ((below path e).filter (·.entry.isDirectory)).map (·.path)
      | .error _ => []
    else expandOne fs c path
  | c :: next :: rest, path =>
    if c.isRecursive then
      match fs.entry path with
      | .ok e => ((below path e).filter (next.holds ·.name)).flatMap fun f => expand fs rest f.path
      | .error _ => []
    else (expandOne fs c path).flatMap (expand fs (next :: rest))
where
  expandOne (fs : FileSystem) (c : Component) (path : String) : List String :=
    match c.literal? with
    | some name =>
      let there :=
        if name = "." || name = ".." then fs.isDirectory path
        else fs.contains (pathBelow path name)
      if there then [pathBelow path name] else []
    | none =>
      match fs.entry path with
      | .ok (.directory entries) =>
        let names := (entries.map (·.1)).filter c.holds
        let dots := if c.startsWithDot then [".", ".."].filter c.holds else []
        names.map (pathBelow path) ++ dots.map (Path.join path)
      | _ => []

def expandPattern (fs : FileSystem) (pattern : String) : Except Glob.Malformed (List String) := do
  let _ ← Glob.parse pattern
  match pattern.toList with
  | '/' :: inner => return expand fs (← Component.ofPattern inner) "/"
  | inner => return expand fs (← Component.ofPattern inner) "."

def rootsOf (fs : FileSystem) (base entry : String) : Except Warning (List String) :=
  let path := Path.join base entry
  if !Glob.hasWildcard entry then
    if fs.contains path then .ok [path] else .error (.missingInclude path)
  else
    match expandPattern fs path with
    | .ok paths => .ok (paths.filter fs.isDirectory)
    | .error problem => .error (.badInclude entry problem)

def roots (fs : FileSystem) (base : String) (includes : List String) :
    List String × List Warning :=
  if includes.isEmpty then ([base], [])
  else
    includes.foldr
      (fun entry (paths, warnings) =>
        match rootsOf fs base entry with
        | .ok more => (more ++ paths, warnings)
        | .error warning => (paths, warning :: warnings))
      ([], [])

end MessageCatalog.Project
