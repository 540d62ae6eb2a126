import SchemaLint.Failure
import SchemaLint.FileTree

/-!
# The surroundings of a run

What a run of the program can see, as a value: the directory it is started in, the variables that
are set, and the files; and what the parsers it uses say of texts they refuse.

* `Environment`: the surroundings.
* `Environment.valueOf?`: the value of a variable.
* `Environment.isFile`, `Environment.contains`, `Environment.readText`: what a path names.
-/

namespace SchemaLint

/-- What a run of the program can see. -/
structure Environment where
  /-- The directory it is started in, as an absolute path. -/
  directory : FilePath
  /-- The variables that are set, by name. -/
  bindings : List (String × String)
  /-- The files, from the root. -/
  files : FileNode
  /-- Where and why the parser of code gives up on a text. -/
  codeFault : String → Option SyntaxFault := fun _ => none
  /-- Why the parser of configurations gives up on a text. -/
  configFault : String → String := fun _ => default

namespace Environment

/-- The value of a variable. -/
def valueOf? (e : Environment) (name : String) : Option String :=
  e.bindings.lookup name

/-- A path as seen from the directory of the run. -/
def absolute (e : Environment) (path : FilePath) : FilePath :=
  e.directory.join path

/-- Whether a path names something. -/
def contains (e : Environment) (path : FilePath) : Bool :=
  e.files.contains (e.absolute path)

/-- Whether a path names a file. -/
def isFile (e : Environment) (path : FilePath) : Bool :=
  e.files.containsFile (e.absolute path)

/-- Whether a path names a directory. -/
def isDirectory (e : Environment) (path : FilePath) : Bool :=
  (e.files.find? (e.absolute path)).any FileNode.isDirectory

/-- The text of the file that a path names. -/
def readText (e : Environment) (path : FilePath) : Except ReadFault String :=
  e.files.readText (e.absolute path)

/-- The absolute path without detours to what a path names, or the path as written if it names
nothing. -/
def canonical (e : Environment) (path : FilePath) : FilePath :=
  match e.files.resolve (e.absolute path) with
  | .ok trail => trail.canonical
  | .error _ => path

end Environment

end SchemaLint
