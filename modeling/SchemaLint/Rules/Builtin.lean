import SchemaLint.Engine.Registry
import SchemaLint.Rules.Schema

/-!
# The built-in rules

* `Rules.setterKeyLiteral`: setter calls have literal keys.
* `Rules.malformedSuppression`: suppression directives are well formed.
* `Rules.units`, `Rules.registry`: all units, and their registry.
* `Preset`: named selections of rules.
-/

namespace SchemaLint

namespace Rules

/-! ## Setter calls -/

/-- How the rule on setter keys is named. -/
def setterKeyLiteralInfo : RuleInfo :=
  ⟨"setter-key-literal", "R001", "Requires literal keys in ResourceData setter calls", .error⟩

/-- The key of a setter call, if the call has a key and a value and the key is no literal. -/
def computedKey? (c : SetterCall) : Option CallArgument :=
  match c.args with
  | key :: _ :: _ => if key.isLiteral then none else some key
  | _ => none

/-- The findings on setter keys. -/
def setterKeyFindings (file : SourceFile) (s : Suppressions) (calls : List SetterCall) :
    List Diagnostic :=
  calls.filterMap fun c =>
    if setterKeyLiteralInfo.isSilenced s c.anchorLine then none
    else (computedKey? c).map fun key =>
      setterKeyLiteralInfo.finding file key.position
        "ResourceData.Set() key argument should be string literal" none

/-- Setter calls have literal keys. -/
def setterKeyLiteral : AnalysisUnit :=
  setterKeyLiteralInfo.unit [Index.setterCallsId, Index.suppressionsId] fun cx => do
    let calls ← cx.read Index.setterCallsId Fact.setterCalls?
    let s ← cx.read Index.suppressionsId Fact.suppressions?
    return setterKeyFindings cx.file s calls

/-! ## Directives -/

/-- How the rule on directives is named. -/
def malformedSuppressionInfo : RuleInfo :=
  ⟨"malformed-suppression", "PL001",
    "Reports suppression comments that are malformed or lack a justification", .warning⟩

/-- The findings on directives; no directive silences them. -/
def directiveFindings (settings : Settings) (file : SourceFile) (s : Suppressions) :
    List Diagnostic :=
  let malformed := s.malformed.map fun d =>
    malformedSuppressionInfo.finding file d.position
      ("malformed suppression directive: " ++ d.fault.message) none
  let unjustified := s.directives.filter fun d => settings.requireJustification &&
    d.justification.isNone
  malformed ++ unjustified.map fun d =>
    malformedSuppressionInfo.finding file d.position
      ("suppression of `" ++ d.rule ++ "` needs a justification") none

/-- Suppression directives are well formed and, where that is asked for, say why. -/
def malformedSuppression : AnalysisUnit :=
  malformedSuppressionInfo.unit [Index.suppressionsId] fun cx => do
    let s ← cx.read Index.suppressionsId Fact.suppressions?
    return directiveFindings cx.settings cx.file s

/-! ## All units -/

/-- The index units and the built-in rules in the order of registration. -/
def units : List AnalysisUnit :=
  Index.all ++ schemaRules.map SchemaRule.unit ++ [setterKeyLiteral, malformedSuppression]

/-- The registry of the built-in units. -/
def registry : Except ConfigurationError Registry :=
  Registry.build units

end Rules

/-! ## Presets -/

/-- A named selection of built-in rules. -/
inductive Preset
  /-- All rules but the one on presence. -/
  | recommended
  /-- The rules on schema literals. -/
  | validation
  /-- All rules. -/
  | all
deriving DecidableEq, Repr

namespace Preset

/-- The name of a preset. -/
def name : Preset → String
  | .recommended => "recommended"
  | .validation => "validation"
  | .all => "all"

/-- The preset of a given name. -/
def ofName? (name : String) : Option Preset :=
  [recommended, validation, all].find? fun p => p.name == name

/-- What is said about a name that no preset has. -/
def unknownMessage (name : String) : String :=
  "unknown preset `" ++ name ++ "` (expected recommended, validation or all)"

/-- The names of the rules on schema literals. -/
def schemaNames : List String :=
  Rules.schemaRules.map fun r => r.info.name

/-- The names of the other rules. -/
def otherNames : List String :=
  [Rules.setterKeyLiteralInfo.name, Rules.malformedSuppressionInfo.name]

/-- The names of the rules of a preset. -/
def ruleNames : Preset → List String
  | .recommended =>
    (schemaNames.filter fun n => n != Rules.missingPresence.info.name) ++ otherNames
  | .validation => schemaNames
  | .all => schemaNames ++ otherNames

/-- A preset is found by its name. -/
theorem ofName?_name (p : Preset) : ofName? p.name = some p := by
  cases p <;> rfl

end Preset

end SchemaLint
