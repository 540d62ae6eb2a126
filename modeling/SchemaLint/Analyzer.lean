import SchemaLint.Config
import SchemaLint.Engine.Session
import SchemaLint.ExcludePattern
import SchemaLint.Ignore.Walk
import SchemaLint.LintResult

/-!
# Analyses

An analysis finds the source files below a root, runs the selected rules on them and gives the
findings the configured severities.

* `AnalyzerRequest`, `Analyzer.build`: an analysis and what it is made from.
* `Analyzer.selectedRules`: the rules that run.
* `Analyzer.excludes`: whether a file is left out.
* `Analyzer.analyzeFiles`: the result on given files.
* `Analyzer.analyze`: the result on the files of a tree.
-/

namespace SchemaLint

/-- Why an analysis has no result. -/
inductive AnalyzerError
  /-- There are no rules to choose from. -/
  | noRegistry
  /-- A pattern of files to leave out is malformed. -/
  | pattern (e : PatternError)
  /-- There is nothing at the root. -/
  | rootNotFound (root : FilePath)
  /-- The analysis cannot be set up. -/
  | configuration (e : ConfigurationError)
deriving DecidableEq, Repr

/-- The wording of an error. -/
def AnalyzerError.message : AnalyzerError → String
  | .noRegistry => "no rule registry configured"
  | .pattern e => "Invalid glob pattern: " ++ e.message
  | .rootNotFound root => "analysis root " ++ root.text ++ " does not exist"
  | .configuration e => e.message

/-- What an analysis is made from. -/
structure AnalyzerRequest where
  /-- The root, before that of the configuration. -/
  root : Option FilePath := none
  /-- The rules to choose from. -/
  registry : Option Registry := none
  /-- The requested rules by name or code; all rules if there are none. -/
  rules : List String := []
  /-- Patterns of files to leave out, before those of the configuration. -/
  exclude : List String := []
  /-- The configuration. -/
  config : Option Config := none
  /-- Where and why the parser of code gives up on a text. -/
  faultOf : String → Option SyntaxFault := fun _ => none

/-- An analysis. -/
structure Analyzer where
  /-- The root. -/
  root : FilePath
  /-- The rules to choose from. -/
  registry : Registry
  /-- The requested rules by name or code. -/
  rules : List String
  /-- Patterns of files to leave out, as written and as read. -/
  patterns : List (String × List ExcludePattern.Part)
  /-- The configuration. -/
  config : Config
  /-- Where and why the parser of code gives up on a text. -/
  faultOf : String → Option SyntaxFault := fun _ => none

namespace Analyzer

/-- The patterns of files to leave out if none are given. -/
def defaultExclude : List String :=
  ["**/target/**", "**/vendor/**"]

/-- The analysis of a request in a directory. -/
def build (directory : FilePath) (r : AnalyzerRequest) : Except AnalyzerError Analyzer := do
  let some registry := r.registry | throw .noRegistry
  let root := r.root.getD ((r.config.map fun c => c.analyzer.root).getD ⟨"."⟩)
  let given := r.exclude ++ (r.config.map fun c => c.analyzer.exclude).getD []
  let written := if given.isEmpty then defaultExclude else given
  let patterns ← written.mapM fun p =>
    match ExcludePattern.parse p with
    | .ok parts => .ok (p, parts)
    | .error e => .error (.pattern e)
  return {
    root := directory.join root
    registry := registry
    rules := r.rules
    patterns := patterns
    config := r.config.getD {}
    faultOf := r.faultOf }

/-! ## Rules -/

/-- The rule that a requested name or code denotes. -/
def requestedRule (a : Analyzer) (id : String) : Except ConfigurationError RuleInfo :=
  match a.registry.rule? id with
  | some info => .ok info
  | none => .error (.unknownUnit id)

/-- The names of the rules that run: the requested ones, or else all, without those that are
disabled and without repeats. -/
def selectedRules (a : Analyzer) : Except ConfigurationError (List String) := do
  let candidates ← if a.rules.isEmpty then .ok a.registry.rules else a.rules.mapM a.requestedRule
  let enabled := candidates.filter fun info => a.config.isRuleEnabled info.name info.code
  return (enabled.map fun info => info.name).eraseDups

/-! ## Findings -/

/-- The file of a path; of several the last. -/
def fileOf? (files : List SourceFile) (path : FilePath) : Option SourceFile :=
  files.reverse.find? fun f => f.relativePath.same path

/-- A finding with the configured severity and the byte offset of its place. -/
def finish (a : Analyzer) (files : List SourceFile) (d : Diagnostic) : Diagnostic :=
  let severity := (a.config.ruleSeverity? d.rule d.code).getD d.severity
  let location :=
    match fileOf? files d.location.file with
    | some f => { d.location with
        offset := f.offsetFor d.location.line d.location.column
        length := 1 }
    | none => d.location
  { d with severity := severity, location := location }

/-- The result of an analysis on given files. -/
def analyzeFiles (a : Analyzer) (files : List SourceFile) :
    Except ConfigurationError LintResult := do
  let selected ← a.selectedRules
  let session ← Session.of a.registry a.config.settings
  let run ← { session with faultOf := a.faultOf }.run selected files []
  return ⟨run.diagnostics.map (a.finish files), run.failures, files.length⟩

/-! ## Files -/

/-- A list without a piece at its front, as often as it stands there. -/
def dropFront (piece : List Char) : Nat → List Char → List Char
  | 0, cs => cs
  | bound + 1, cs =>
    match Text.dropLeading? piece cs with
    | some rest => dropFront piece bound rest
    | none => cs

/-- The name that a pattern excludes wherever it stands in a relative path: what is left of it
without the stars for components around it, if no stars are left. -/
def plainName? (pattern : String) : Option String :=
  let cs := pattern.toList
  let front := dropFront ['*', '*', '/'] cs.length cs
  let name := (dropFront ['*', '*', '/'] front.length front.reverse).reverse
  if name.contains '*' || name.isEmpty then none else some (String.ofList name)

/-- Whether a component of a path is written as given. -/
def isWritten (text : String) : PathComponent → Bool
  | .root => text == "/"
  | .current => text == "."
  | .parent => text == ".."
  | .entry name => name == text

/-- Whether a file is left out: a pattern matches its path or its path below the root, or is the
plain name of something on the way. -/
def excludes (a : Analyzer) (path : FilePath) : Bool :=
  let relative := path.relativeTo a.root
  a.patterns.any (fun (_, parts) =>
    ExcludePattern.matchParts parts path.text.toList ||
      ExcludePattern.matchParts parts relative.text.toList) ||
  a.patterns.any fun (pattern, _) =>
    match plainName? pattern with
    | some name => relative.components.any (isWritten name)
    | none => false

/-- Whether a file holds source code, by its name. -/
def isSource (path : FilePath) : Bool :=
  path.fileExtension? == some "rs"

/-- The source files of an analysis in a tree, in the order of their paths, with their content if
it is text. -/
def discover (a : Analyzer) (tree : FileNode) :
    Except AnalyzerError (List (FilePath × Option String)) :=
  match tree.resolve a.root with
  | .error _ => .error (.rootNotFound a.root)
  | .ok trail =>
    let all := Walk.filesFrom a.config.analyzer.respectGitignore a.root trail
    let wanted := all.filter fun (path, _) => isSource path && !a.excludes path
    .ok (wanted.mergeSort fun x y => x.1.compare y.1 != .gt)

/-- The files that can be read, numbered in order. -/
def load (a : Analyzer) (found : List (FilePath × Option String)) : List SourceFile :=
  let readable := found.filterMap fun (path, content) => content.map fun text => (path, text)
  readable.zipIdx.map fun ((path, text), id) => SourceFile.below a.root id path text

/-- The result of an analysis on the files of a tree. -/
def analyze (a : Analyzer) (tree : FileNode) : Except AnalyzerError LintResult := do
  let files := a.load (← a.discover tree)
  match a.analyzeFiles files with
  | .ok r => .ok r
  | .error e => .error (.configuration e)

end Analyzer

end SchemaLint
