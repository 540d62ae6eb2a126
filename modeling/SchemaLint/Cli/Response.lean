import SchemaLint.Analyzer
import SchemaLint.Cli.ConfigSource
import SchemaLint.Cli.Report
import SchemaLint.Rules.Builtin

/-!
# Running commands

A run of the program is a function of its surroundings and of the words of its command line.  It
ends with 0 if there is nothing to report, with 1 if there are findings or failures, and with 2 if
it could not be completed.

* `Response`: what a run prints and writes, and how it ends.
* `CheckOptions.run`: analysing files.
* `CommandLine.run`: one command.
* `respond`: a whole run.
-/

namespace SchemaLint

/-- What a run of the program prints and writes, and how it ends. -/
structure Response where
  /-- How it ends. -/
  exitCode : Nat
  /-- What it prints. -/
  printed : Printed := {}
  /-- The files that it writes. -/
  written : List (FilePath × String) := []
deriving DecidableEq, Repr

namespace Response

/-- The response of a run that could not be completed. -/
def failure (message : String) : Response where
  exitCode := 2
  printed := { messages := asLine ("error: " ++ message) }

end Response

/-! ## Check -/

/-- Why a check has no result. -/
inductive CheckError
  /-- The configuration file cannot be read. -/
  | unreadableConfig (path : FilePath) (fault : ReadFault)
  /-- The configuration file is malformed. -/
  | malformedConfig (path : FilePath) (reason : String)
  /-- There is no preset of that name. -/
  | unknownPreset (name : String)
  /-- The rules do not fit together. -/
  | registry (e : ConfigurationError)
  /-- The analysis cannot be set up. -/
  | build (e : AnalyzerError)
  /-- A rule that was asked for does not exist. -/
  | selection (e : ConfigurationError)
  /-- The analysis has no result. -/
  | analysis (e : AnalyzerError)
deriving DecidableEq, Repr

namespace CheckError

/-- The wording of an error, the outermost circumstance first.  A fault below a message that
already quotes it is told once more. -/
def message : CheckError → String
  | .unreadableConfig path fault =>
    "Failed to load config: " ++ path.text ++ ": Failed to read config file " ++ path.text ++
      ": " ++ fault.message ++ ": " ++ fault.message
  | .malformedConfig path reason =>
    "Failed to load config: " ++ path.text ++ ": Failed to parse config: " ++ reason
  | .unknownPreset name => Preset.unknownMessage name
  | .registry e => "Failed to build rule registry: " ++ e.message
  | .build (.pattern e) =>
    "Failed to build analyzer: " ++ (AnalyzerError.pattern e).message ++ ": " ++ e.message
  | .build e => "Failed to build analyzer: " ++ e.message
  | .selection e => e.message
  | .analysis e => "Analysis failed: " ++ e.message

end CheckError

/-- The configuration of a source. -/
def ConfigSource.load (e : Environment) (s : ConfigSource) : Except CheckError Config :=
  match s.path? with
  | none => .ok {}
  | some path =>
    match e.readText path with
    | .error fault => .error (.unreadableConfig path fault)
    | .ok text =>
      match Config.parse? text with
      | some config => .ok config
      | none => .error (.malformedConfig path (e.configFault text))

namespace CheckOptions

/-- The rules to run: those asked for, else those of the preset asked for, else those of the
configured preset, else those of the recommended one. -/
def requestedRules (o : CheckOptions) (config : Config) : Except CheckError (List String) :=
  if o.rules.isEmpty then
    match o.preset.or config.preset with
    | none => .ok Preset.recommended.ruleNames
    | some name =>
      match Preset.ofName? name with
      | some preset => .ok preset.ruleNames
      | none => .error (.unknownPreset name)
  else .ok ((o.rules.map Text.trim).filter fun name => !name.isEmpty)

/-- The result of a check. -/
def result (o : CheckOptions) (e : Environment) (source : ConfigSource) :
    Except CheckError LintResult := do
  let config ← source.load e
  let requested ← o.requestedRules config
  let registry ← Rules.registry.mapError CheckError.registry
  let analyzer ← (Analyzer.build e.directory {
    root := some o.path
    registry := some registry
    rules := requested
    exclude := o.exclude
    config := some config
    faultOf := e.codeFault }).mapError CheckError.build
  discard <| analyzer.selectedRules.mapError CheckError.selection
  (analyzer.analyze e.files).mapError CheckError.analysis

/-- Whether a result leaves nothing to report. -/
def isClean (r : LintResult) : Bool :=
  r.diagnostics.isEmpty && !r.hasFailures

/-- Analyses files and writes the result. -/
def run (o : CheckOptions) (e : Environment) (config : Option FilePath) : Response :=
  match o.result e (ConfigSource.find e o.path config) with
  | .error fault => .failure fault.message
  | .ok r => { exitCode := if isClean r then 0 else 1, printed := r.render o.format }

end CheckOptions

/-! ## List of rules -/

/-- A text filled up with blanks to a width. -/
def padded (width : Nat) (s : String) : String :=
  String.ofList (s.toList ++ List.replicate (width - s.length) ' ')

/-- A row of the table of rules. -/
def ruleRow (code name severity description : String) : String :=
  padded 8 code ++ " " ++ padded 30 name ++ " " ++ padded 9 severity ++ " " ++ description

/-- The line on a preset. -/
def presetLine (p : Preset) : String :=
  "  " ++ padded 12 p.name ++ " - " ++ toString p.ruleNames.length ++ " rules" ++
    if p = .recommended then " (default)" else ""

/-- The list of rules and presets. -/
def ruleList (rules : List RuleInfo) : List String :=
  ["Available rules:", "", ruleRow "Code" "Name" "Severity" "Description",
    String.ofList (List.replicate 100 '-')] ++
  (rules.map fun info => ruleRow info.code info.name info.severity.name info.description) ++
  ["", "Presets:"] ++ [Preset.recommended, Preset.validation, Preset.all].map presetLine ++
  ["", "Use --rules to filter specific rules, e.g.:",
    "  provider-lint check --rules required-default-conflict,map-missing-elem",
    "  provider-lint check --rules S004,S006,R001"]

/-- Lists the rules. -/
def runListRules : Response :=
  match Rules.registry with
  | .ok registry => { exitCode := 0, printed := { output := asLines (ruleList registry.rules) } }
  | .error e => .failure (CheckError.registry e).message

/-! ## First configuration -/

/-- The lines of a new configuration file. -/
def initialConfig : List String :=
  ["# provider-lint configuration",
    "",
    "# Rule preset: recommended, validation or all",
    "preset = \"recommended\"",
    "",
    "[analyzer]",
    "# Root directory to analyze (default: current directory)",
    "# root = \"./internal\"",
    "",
    "# Glob patterns to exclude from analysis",
    "exclude = [",
    "    \"**/target/**\",",
    "    \"**/vendor/**\",",
    "]",
    "",
    "# Respect .gitignore files",
    "respect_gitignore = true",
    "",
    "# Worker threads (default: one per CPU)",
    "# parallelism = 4",
    "",
    "[schema]",
    "# Struct types whose literals are schema declarations",
    "types = [\"tfschema::Schema\"]",
    "# Enum of declared value types (List, Set, Map, ...)",
    "value_type = \"tfschema::ValueType\"",
    "# Types whose setter calls are checked",
    "resource_data = [\"tfschema::ResourceData\"]",
    "setter_methods = [\"set\"]",
    "",
    "[suppression]",
    "marker = \"provider-lint:ignore\"",
    "# Report directives without a justification",
    "require_justification = false",
    "",
    "# Rules of the preset can be disabled and have their severity overridden,",
    "# by name or by code. Rules outside the preset are not added this way;",
    "# missing-presence (S013), for one, runs only with preset = \"all\".",
    "",
    "# [rules.required-computed-conflict]",
    "# enabled = false",
    "",
    "# [rules.S009]",
    "# severity = \"warning\""]

/-- What is printed after a configuration file has been written. -/
def nextSteps : List String :=
  ["Created provider-lint.toml", "", "Next steps:",
    "  1. Edit provider-lint.toml to point [schema] at your schema types",
    "  2. Run: provider-lint check"]

/-- Writes a configuration file to the directory of the run. -/
def runInit (e : Environment) (force : Bool) : Response :=
  let path : FilePath := ⟨"provider-lint.toml"⟩
  if e.contains path && !force then
    .failure ("Configuration file already exists at " ++ path.text ++
      ". Use --force to overwrite.")
  else if e.isDirectory path then .failure ReadFault.isADirectory.message
  else {
    exitCode := 0
    printed := { output := asLines nextSteps }
    written := [(e.absolute path, asLines initialConfig)] }

/-! ## Runs -/

/-- Runs a command. -/
def CommandLine.run (c : CommandLine) (e : Environment) : Response :=
  match c.command with
  | .check options => options.run e c.config
  | .listRules => runListRules
  | .init force => runInit e force

/-- How the program is called. -/
def usage : List String :=
  ["Schema linter for infrastructure provider code", "",
    "Usage: provider-lint [OPTIONS] <COMMAND>", "",
    "Commands:",
    "  check       Run lint checks",
    "  list-rules  List available rules",
    "  init        Initialize configuration file",
    "  help        Print this message or the help of the given subcommand(s)", "",
    "Options:",
    "  -v, --verbose          Enable verbose output",
    "  -c, --config <CONFIG>  Path to configuration file [env: PROVIDER_LINT_CONFIG=]",
    "  -h, --help             Print help",
    "  -V, --version          Print version"]

/-- What is done instead of a command. -/
def Stop.response : Stop → Response
  | .help => { exitCode := 0, printed := { output := asLines usage } }
  | .version => { exitCode := 0, printed := { output := asLine "provider-lint 0.1.0" } }
  | .nothingSaid => { exitCode := 2, printed := { messages := asLines usage } }
  | .error e => .failure e.message

/-- A run of the program on the words of its command line. -/
def respond (e : Environment) (words : List String) : Response :=
  match CommandLine.read (e.valueOf? "PROVIDER_LINT_CONFIG") words with
  | .ok c => c.run e
  | .error stop => stop.response

end SchemaLint
