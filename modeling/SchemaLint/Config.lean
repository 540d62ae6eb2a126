import SchemaLint.Diagnostic
import SchemaLint.Settings
import SchemaLint.Toml.Document

/-!
# Configuration files

A configuration says what is analysed, what counts as a schema, how directives look, and which
rules count.  All of it is optional, and members that are not known are ignored.

* `Config`: a configuration.
* `Config.parse?`: reading one.
* `Config.ruleSettings?`, `Config.isRuleEnabled`, `Config.ruleSeverity?`: what it says on a rule.
* `Config.settings`: the settings it gives to an analysis.
-/

namespace SchemaLint

/-- What is analysed. -/
structure AnalyzerSettings where
  /-- The directory or file to analyse. -/
  root : FilePath := ⟨"."⟩
  /-- Patterns of files to leave out. -/
  exclude : List String := ["**/target/**", "**/vendor/**"]
  /-- Whether files that version control ignores are left out. -/
  respectGitignore : Bool := true
  /-- The most files to analyse at a time. -/
  parallelism : Option Nat := none
deriving DecidableEq, Repr, Inhabited

/-- What is said about a rule. -/
structure RuleSettings where
  /-- Whether it is enabled. -/
  enabled : Option Bool := none
  /-- How serious its findings are. -/
  severity : Option Severity := none
deriving DecidableEq, Repr, Inhabited

/-- A configuration. -/
structure Config where
  /-- The name of a preset. -/
  preset : Option String := none
  /-- What is analysed. -/
  analyzer : AnalyzerSettings := {}
  /-- What counts as a schema, and how directives look. -/
  settings : Settings := {}
  /-- What is said about rules, by name or code. -/
  rules : List (String × RuleSettings) := []
deriving DecidableEq, Repr, Inhabited

/-! ## Reading values -/

namespace Toml.Value

/-- The value as a string. -/
def text? : Value → Option String
  | .text s => some s
  | _ => none

/-- The value as a truth value. -/
def bool? : Value → Option Bool
  | .bool b => some b
  | _ => none

/-- The value as a number without sign. -/
def natural? : Value → Option Nat
  | .integer (.ofNat n) => some n
  | _ => none

/-- The value as a list of strings. -/
def texts? : Value → Option (List String)
  | .array vs => vs.mapM text?
  | .series [] => some []
  | _ => none

/-- The value as a record: its members by name.  A list stands for a record by the order of the
names, and a date has no member that a record knows. -/
def record? (names : List String) : Value → Option Members
  | .table _ ms => some ms
  | .array vs => some (names.zip vs)
  | .series ts => some (names.zip (ts.map (.table .header)))
  | .moment => some []
  | _ => none

/-- Whether the value is an empty list or table. -/
def isVoid : Value → Bool
  | .array vs => vs.isEmpty
  | .table _ ms => ms.isEmpty
  | .series ts => ts.isEmpty
  | _ => false

/-- The severity the value names, as a string or as the only member of a table. -/
def severity? : Value → Option Severity
  | .text s => Severity.ofName? s
  | .table _ [(name, v)] => if v.isVoid then Severity.ofName? name else none
  | _ => none

end Toml.Value

namespace Config

open Toml

/-- A member of a record, or what stands for it if it is missing. -/
def memberOr {α : Type} (ms : Members) (name : String) (read : Value → Option α) (missing : α) :
    Option α :=
  match ms.lookup name with
  | some v => read v
  | none => some missing

/-- A member of a record that may be missing. -/
def member? {α : Type} (ms : Members) (name : String) (read : Value → Option α) :
    Option (Option α) :=
  memberOr ms name (fun v => (read v).map some) none

/-! ## Sections -/

/-- The section on what is analysed.  A section that lists nothing to leave out leaves nothing
out. -/
def analyzerOf? (v : Value) : Option AnalyzerSettings := do
  let ms ← v.record? ["root", "exclude", "respect_gitignore", "parallelism"]
  return {
    root := ⟨← memberOr ms "root" Value.text? "."⟩
    exclude := ← memberOr ms "exclude" Value.texts? []
    respectGitignore := ← memberOr ms "respect_gitignore" Value.bool? true
    parallelism := ← member? ms "parallelism" Value.natural? }

/-- The section on what counts as a schema. -/
def schemaOf? (v : Value) : Option SchemaSettings := do
  let ms ← v.record? ["types", "value_type", "resource_data", "setter_methods"]
  let d : SchemaSettings := {}
  return {
    types := ← memberOr ms "types" Value.texts? d.types
    valueType := ← memberOr ms "value_type" Value.text? d.valueType
    resourceData := ← memberOr ms "resource_data" Value.texts? d.resourceData
    setterMethods := ← memberOr ms "setter_methods" Value.texts? d.setterMethods }

/-- The marker of directives and whether they must say why. -/
def suppressionOf? (v : Value) : Option (String × Bool) := do
  let ms ← v.record? ["marker", "require_justification"]
  let d : Settings := {}
  return (← memberOr ms "marker" Value.text? d.marker,
    ← memberOr ms "require_justification" Value.bool? d.requireJustification)

/-- What is said about a rule. -/
def ruleOf? (v : Value) : Option RuleSettings := do
  let ms ← v.record? ["enabled", "severity"]
  return {
    enabled := ← member? ms "enabled" Value.bool?
    severity := ← member? ms "severity" Value.severity? }

/-- What is said about rules. -/
def rulesOf? : Value → Option (List (String × RuleSettings))
  | .table _ ms => ms.mapM fun (name, v) => do return (name, ← ruleOf? v)
  | _ => none

/-- The configuration that the members of a document make. -/
def ofMembers? (ms : Members) : Option Config := do
  let d : Config := {}
  let (marker, requireJustification) ← memberOr ms "suppression" suppressionOf?
    (d.settings.marker, d.settings.requireJustification)
  return {
    preset := ← member? ms "preset" Value.text?
    analyzer := ← memberOr ms "analyzer" analyzerOf? d.analyzer
    settings := {
      schema := ← memberOr ms "schema" schemaOf? d.settings.schema
      marker := marker
      requireJustification := requireJustification }
    rules := ← memberOr ms "rules" rulesOf? [] }

/-- The configuration that a text holds, if it holds one. -/
def parse? (source : String) : Option Config :=
  (Toml.parse? source).bind ofMembers?

/-! ## Rules -/

/-- What is said about a rule, under its name or else under its code. -/
def ruleSettings? (c : Config) (name code : String) : Option RuleSettings :=
  (c.rules.lookup name).or (c.rules.lookup code)

/-- Whether a rule is enabled; it is unless it is said to be not. -/
def isRuleEnabled (c : Config) (name code : String) : Bool :=
  match c.ruleSettings? name code with
  | some r => r.enabled.getD true
  | none => true

/-- How serious the findings of a rule are said to be. -/
def ruleSeverity? (c : Config) (name code : String) : Option Severity :=
  (c.ruleSettings? name code).bind fun r => r.severity

end Config

end SchemaLint
