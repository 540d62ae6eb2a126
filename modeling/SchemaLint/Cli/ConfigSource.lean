import SchemaLint.Cli.Environment

/-!
# Where the configuration comes from

A path given by the user is taken as it is.  Otherwise the analysed directory and the directories
above it are searched, up to the root of a repository; then the user's own directory.

* `ConfigSource`: a place that a configuration comes from.
* `ConfigSource.Lookup`, `ConfigSource.Lookup.run`: a lookup and the place it comes to.
* `ConfigSource.find`: the place for an analysis of a given target.
-/

namespace SchemaLint

/-- Where a configuration comes from. -/
inductive ConfigSource
  /-- A file that the user named. -/
  | explicit (path : FilePath)
  /-- A file in the analysed directory or above it. -/
  | project (path : FilePath)
  /-- A file in the directory of the user. -/
  | personal (path : FilePath)
  /-- No file: the defaults. -/
  | defaults
deriving DecidableEq, Repr

namespace ConfigSource

/-- The file to read. -/
def path? : ConfigSource → Option FilePath
  | .explicit path => some path
  | .project path => some path
  | .personal path => some path
  | .defaults => none

/-- The names of a configuration file in a project, the preferred one first. -/
def projectNames : List String :=
  ["provider-lint.toml", ".provider-lint.toml"]

/-- The name of a configuration file in the directory of the user. -/
def personalName : String :=
  "config.toml"

/-- The configuration file in a directory of a project. -/
def fileIn? (e : Environment) (directory : FilePath) : Option FilePath :=
  (projectNames.map fun name => directory.join ⟨name⟩).find? e.isFile

/-- Whether a directory is the root of a repository. -/
def isRepository (e : Environment) (directory : FilePath) : Bool :=
  e.contains (directory.join ⟨".git"⟩)

/-- The first configuration file in directories up to the root of a repository. -/
def projectFile? (e : Environment) : List FilePath → Option FilePath
  | [] => none
  | directory :: rest =>
    match fileIn? e directory with
    | some path => some path
    | none => if isRepository e directory then none else projectFile? e rest

/-- The directory of the user's own configuration. -/
def personalDirectory? (e : Environment) : Option FilePath :=
  match e.valueOf? "PROVIDER_LINT_CONFIG_DIR" with
  | some directory => some ⟨directory⟩
  | none => (e.valueOf? "HOME").map fun home => FilePath.join ⟨home⟩ ⟨".provider-lint"⟩

/-- The user's own configuration file, if it is in the given directory. -/
def personalFile? (e : Environment) (directory : Option FilePath) : Option FilePath :=
  (directory.map fun directory => directory.join ⟨personalName⟩).filter e.isFile

/-- What a lookup goes by. -/
structure Lookup where
  /-- The file that the user named. -/
  given : Option FilePath
  /-- The path from which the project is searched. -/
  start : FilePath
  /-- The directory of the user's own configuration. -/
  personal : Option FilePath

/-- The place that a lookup comes to. -/
def Lookup.run (e : Environment) (l : Lookup) : ConfigSource :=
  match l.given with
  | some path => .explicit path
  | none =>
    match projectFile? e l.start.ancestors with
    | some path => .project path
    | none =>
      match personalFile? e l.personal with
      | some path => .personal path
      | none => .defaults

/-- The place of the configuration for an analysis of a target. -/
def find (e : Environment) (target : FilePath) (given : Option FilePath) : ConfigSource :=
  Lookup.run e ⟨given, e.canonical target, personalDirectory? e⟩

end ConfigSource

end SchemaLint
