import SchemaLint.FileTree
import SchemaLint.Ignore.Pattern

/-!
# Ignore files

Each line of an ignore file says which paths are ignored, or after an exclamation mark which are
not.  Of the lines of a file that match a path the last counts.

* `IgnoreRule.ofLine?`: the rule of a line.
* `IgnoreRule.decide?`: what the rules of a file say about a path.
* `IgnoreFiles.of`: the ignore files of a directory.
-/

namespace SchemaLint

/-- What a line of an ignore file says. -/
structure IgnoreRule where
  /-- The ways to read its pattern. -/
  ways : List (List IgnorePattern.Atom)
  /-- Whether paths that match are kept. -/
  keeps : Bool
  /-- Whether it is about directories only. -/
  onlyDirectories : Bool
deriving Repr

namespace IgnoreRule

/-- Whether a list ends with another. -/
def endsWith (cs ending : List Char) : Bool :=
  ending.reverse.isPrefixOf cs.reverse

/-- A line without trailing blanks, unless its last blank is escaped. -/
def trimLine (line : List Char) : List Char :=
  if endsWith line ['\\', ' '] then line else Text.trimEnd line

/-- A pattern without a slash at its end, and whether there was one.  A backslash before it goes
too. -/
def cutSlash (pattern : List Char) : List Char × Bool :=
  if endsWith pattern ['/'] then
    let front := pattern.dropLast
    (if endsWith front ['\\'] then front.dropLast else front, true)
  else (pattern, false)

/-- The pattern that is matched against relative paths: one without slashes matches at any depth,
and one that ends in all that is below a directory does not match the directory. -/
def widen (anchored : Bool) (pattern : List Char) : List Char :=
  let doubleStar := ['*', '*', '/']
  let deep :=
    if !anchored && !pattern.contains '/' && pattern != ['*', '*'] then doubleStar ++ pattern
    else pattern
  if endsWith deep ['/', '*', '*'] then deep ++ ['/', '*'] else deep

/-- What the marks at the start of a line say: the rest, whether it keeps, and whether it is
anchored. -/
def marks : List Char → List Char × Bool × Bool
  | '\\' :: '!' :: cs => ('!' :: cs, false, false)
  | '\\' :: '#' :: cs => ('#' :: cs, false, false)
  | '!' :: '/' :: cs => (cs, true, true)
  | '!' :: cs => (cs, true, false)
  | '/' :: cs => (cs, false, true)
  | cs => (cs, false, false)

/-- The rule of a line; none for comments, empty lines and malformed patterns. -/
def ofLine? (line : List Char) : Option IgnoreRule :=
  if line.head? == some '#' then none
  else
    match trimLine line with
    | [] => none
    | trimmed =>
      let (pattern, keeps, anchored) := marks trimmed
      let (pattern, onlyDirectories) := cutSlash pattern
      (IgnorePattern.parse? (String.ofList (widen anchored pattern))).map fun ways =>
        ⟨ways, keeps, onlyDirectories⟩

/-- The lines of a text, without their ends. -/
def linesOf (text : List Char) : List (List Char) :=
  (Text.splitAtChar '\n' text).map fun line => if endsWith line ['\r'] then line.dropLast else line

/-- The rules of an ignore file. -/
def ofText (text : String) : List IgnoreRule :=
  (linesOf (text.toList.dropWhile (· == '\ufeff'))).filterMap ofLine?

/-- Whether a rule is about a path. -/
def covers (r : IgnoreRule) (path : String) (isDirectory : Bool) : Bool :=
  (!r.onlyDirectories || isDirectory) && IgnorePattern.isMatch r.ways path

/-- Whether rules ignore a path or keep it; nothing if none is about it. -/
def decide? (rules : List IgnoreRule) (path : String) (isDirectory : Bool) : Option Bool :=
  (rules.reverse.find? fun r => r.covers path isDirectory).map fun r => !r.keeps

end IgnoreRule

/-- The ignore files of a directory. -/
structure IgnoreFiles where
  /-- The rules for any program. -/
  general : List IgnoreRule
  /-- The rules of version control. -/
  tracked : List IgnoreRule
  /-- The rules of version control that are not shared. -/
  unshared : List IgnoreRule
deriving Repr

namespace IgnoreFiles

/-- The rules of a file below a directory; none if there is no such file. -/
def rulesAt (directory : FileNode) (path : List String) : List IgnoreRule :=
  match path.foldlM FileNode.entry directory with
  | some (.file (some text)) => IgnoreRule.ofText text
  | _ => []

/-- The ignore files of a directory, those of version control only if they are respected. -/
def of (respectGitignore : Bool) (directory : FileNode) : IgnoreFiles where
  general := rulesAt directory [".ignore"]
  tracked := if respectGitignore then rulesAt directory [".gitignore"] else []
  unshared := if respectGitignore then rulesAt directory [".git", "info", "exclude"] else []

end IgnoreFiles

end SchemaLint
