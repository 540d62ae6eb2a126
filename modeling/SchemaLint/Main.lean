import SchemaLint.Cli.Response

/-!
# The program

Takes a picture of what a run can see, hands it to `SchemaLint.respond`, and prints and writes what
that answers.

* `Snapshot.environment`: the picture for a command line.
* `main`: the program.
-/

namespace SchemaLint.Snapshot

/-- The text of a file, if it has one. -/
def textAt (path : FilePath) : IO (Option String) := do
  try
    return some (← IO.FS.readFile path.text)
  catch _ =>
    return none

/-- Whether something is there. -/
def isThere (path : FilePath) : IO Bool := do
  try
    discard <| (← IO.FS.realPath path.text).metadata
    return true
  catch _ =>
    return false

/-- Whether a directory is there. -/
def isDirectoryThere (path : FilePath) : IO Bool := do
  try
    (← IO.FS.realPath path.text).isDir
  catch _ =>
    return false

/-- Whether the text of a file matters to an analysis. -/
def isOfInterest (path : FilePath) : Bool :=
  Analyzer.isSource path ||
    [".gitignore", ".ignore", "exclude"].any fun name => path.fileName? == some name

/-- The tree of files at and below a path; links are not followed. -/
partial def treeAt (path : FilePath) : IO FileNode := do
  if ← isDirectoryThere path then
    let mut entries := []
    for entry in ← (← IO.FS.realPath path.text).readDir do
      let below := path.join ⟨entry.fileName⟩
      match (← entry.path.symlinkMetadata).type with
      | .dir => entries := (entry.fileName, ← treeAt below) :: entries
      | .file => entries := (entry.fileName, ← treeAt below) :: entries
      | _ => pure ()
    return .directory entries
  else if isOfInterest path then return .file (← textAt path)
  else return .file none

/-- The names on the way from the root to what is at a path. -/
def namesOf (path : FilePath) : IO (List String) := do
  let real : FilePath := ⟨(← IO.FS.realPath path.text).toString⟩
  return real.components.filterMap fun
    | .entry name => some name
    | _ => none

/-- A tree with what is at a path, a directory without its entries. -/
def addOne (tree : FileNode) (path : FilePath) : IO FileNode := do
  if ← isDirectoryThere path then return tree.putDirectory (← namesOf path)
  else if ← isThere path then return tree.put (← textAt path) (← namesOf path)
  else return tree

/-- A tree with what is at a path and with the directories on the way there. -/
def addWay (tree : FileNode) (path : FilePath) : IO FileNode :=
  path.ancestors.reverse.foldlM addOne tree

/-- What is looked for in the directories above an analysed one. -/
def namesAbove : List String :=
  ConfigSource.projectNames ++ [".ignore", ".gitignore", ".git", ".git/info/exclude"]

/-- A tree with all that an analysis of a path may look at. -/
def addTarget (tree : FileNode) (path : FilePath) : IO FileNode := do
  let mut tree ← addWay tree path
  if ← isDirectoryThere path then
    tree := FileNode.graft (← treeAt path) (← namesOf path) tree
  let mut directories := path.ancestors
  if ← isThere path then
    directories := directories ++ FilePath.ancestors ⟨"/" ++ "/".intercalate (← namesOf path)⟩
  for directory in directories do
    for name in namesAbove do
      tree ← addOne tree (directory.join ⟨name⟩)
  return tree

/-- The variables that the program looks at. -/
def knownVariables : IO (List (String × String)) := do
  let mut found := []
  for name in ["PROVIDER_LINT_CONFIG", "PROVIDER_LINT_CONFIG_DIR", "HOME"] do
    if let some value ← IO.getEnv name then
      found := (name, value) :: found
  return found

/-- What a run can see that is called with the given words. -/
def environment (words : List String) : IO Environment := do
  let directory : FilePath := ⟨(← IO.currentDir).toString⟩
  let bare : Environment :=
    { directory, bindings := ← knownVariables, files := .directory [] }
  let mut tree ← addWay bare.files directory
  match CommandLine.read (bare.valueOf? "PROVIDER_LINT_CONFIG") words with
  | .error _ => return bare
  | .ok c =>
    match c.command with
    | .check options => tree ← addTarget tree (bare.absolute options.path)
    | .listRules => pure ()
    | .init _ => tree ← addOne tree (bare.absolute ⟨"provider-lint.toml"⟩)
    for path in c.config.toList do
      tree ← addWay tree (bare.absolute path)
    for folder in (ConfigSource.personalDirectory? bare).toList do
      tree ← addWay tree ((bare.absolute folder).join ⟨ConfigSource.personalName⟩)
    return { bare with files := tree }

end SchemaLint.Snapshot

open SchemaLint in
/-- Runs the program on the words of its command line. -/
def main (words : List String) : IO UInt32 := do
  let r := respond (← Snapshot.environment words) words
  for (path, text) in r.written do
    IO.FS.writeFile path.text text
  (← IO.getStdout).putStr r.printed.output
  (← IO.getStderr).putStr r.printed.messages
  return r.exitCode.toUInt32
