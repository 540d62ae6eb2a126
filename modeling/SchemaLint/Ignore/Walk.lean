import SchemaLint.Ignore.Rule

/-!
# Walking a directory

The files below a directory, without the hidden ones and without those that ignore files name.  The
ignore files of a directory are about all paths below it; a nearer file counts before a farther
one, and general ignore files count before those of version control.

* `IgnoreLevel.decide?`: what the ignore files from a directory upwards say about an entry.
* `Walk.filesFrom`: the files below a directory.
-/

namespace SchemaLint

/-- A directory on the way to the current one: its ignore files, and the path from it to the
current directory, with a slash at its end unless it is empty. -/
structure IgnoreLevel where
  /-- The ignore files. -/
  files : IgnoreFiles
  /-- The path from the directory to the current one. -/
  path : String
deriving Repr

namespace IgnoreLevel

/-- The first thing that levels, the nearest first, say about an entry of the current directory. -/
def firstSay (rules : IgnoreFiles → List IgnoreRule) (levels : List IgnoreLevel) (name : String)
    (isDirectory : Bool) : Option Bool :=
  levels.findSome? fun l => IgnoreRule.decide? (rules l.files) (l.path ++ name) isDirectory

/-- Whether an entry of the current directory is ignored or kept; nothing if no rule is about
it. -/
def decide? (levels : List IgnoreLevel) (name : String) (isDirectory : Bool) : Option Bool :=
  (firstSay (·.general) levels name isDirectory).or <|
    (firstSay (·.tracked) levels name isDirectory).or <|
      firstSay (·.unshared) levels name isDirectory

/-- The level seen from a directory below the current one. -/
def enter (name : String) (l : IgnoreLevel) : IgnoreLevel :=
  { l with path := l.path ++ name ++ "/" }

end IgnoreLevel

namespace Walk

/-- Whether a name is hidden. -/
def isHidden (name : String) : Bool :=
  name.toList.head? == some '.'

/-- Whether an entry of the current directory is left out: it is ignored, or it is hidden and not
kept. -/
def isSkipped (levels : List IgnoreLevel) (name : String) (isDirectory : Bool) : Bool :=
  (IgnoreLevel.decide? levels name isDirectory).getD (isHidden name)

mutual

/-- The files at and below an entry, given its path and the levels of its directory. -/
def filesAt (respectGitignore : Bool) (levels : List IgnoreLevel) (path : FilePath)
    (name : String) : FileNode → List (FilePath × Option String)
  | .file content => if isSkipped levels name false then [] else [(path, content)]
  | .directory entries =>
    if isSkipped levels name true then []
    else
      let own := IgnoreFiles.of respectGitignore (.directory entries)
      let below := ⟨own, ""⟩ :: levels.map (IgnoreLevel.enter name)
      filesOf respectGitignore below path entries

/-- The files at and below the entries of a directory. -/
def filesOf (respectGitignore : Bool) (levels : List IgnoreLevel) (directory : FilePath) :
    List (String × FileNode) → List (FilePath × Option String)
  | [] => []
  | (name, node) :: rest =>
    filesAt respectGitignore levels (directory.join ⟨name⟩) name node ++
      filesOf respectGitignore levels directory rest

end

/-- The levels above a directory, the nearest first, given the names and nodes above it. -/
def levelsAbove (respectGitignore : Bool) (below : String) :
    List (String × FileNode) → List IgnoreLevel
  | [] => []
  | (name, node) :: above =>
    let path := name ++ "/" ++ below
    ⟨IgnoreFiles.of respectGitignore node, path⟩ :: levelsAbove respectGitignore path above

/-- The files at and below what a trail leads to, with the paths that begin with the given one.
The start itself is never left out. -/
def filesFrom (respectGitignore : Bool) (path : FilePath) (t : FileNode.Trail) :
    List (FilePath × Option String) :=
  match t.node with
  | .file content => [(path, content)]
  | .directory entries =>
    let own := IgnoreFiles.of respectGitignore (.directory entries)
    filesOf respectGitignore (⟨own, ""⟩ :: levelsAbove respectGitignore "" t.above) path entries

end Walk

end SchemaLint
