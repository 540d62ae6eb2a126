import SchemaLint.Engine.Index

/-!
# Rules

A rule is a unit that reports findings.  A finding about a node is left out if a directive for the
rule, by name or code, is adjacent to the node.

* `RuleInfo.finding`: a finding of a rule.
* `RuleInfo.isSilenced`: whether directives silence a rule on a line.
* `SchemaRule`: a rule that looks at one schema literal at a time.
* `SchemaRule.findings`: its findings.
-/

namespace SchemaLint

namespace RuleInfo

/-- A finding of a rule at a position. -/
def finding (info : RuleInfo) (file : SourceFile) (position : Position) (message : String)
    (suggestion : Option String) : Diagnostic where
  code := info.code
  rule := info.name
  severity := info.severity
  location := .ofPosition file.relativePath position
  message := message
  suggestion := suggestion

/-- Whether a directive silences the rule for what is anchored on a line. -/
def isSilenced (info : RuleInfo) (s : Suppressions) (line : Nat) : Bool :=
  s.isSuppressedAt info.name line || s.isSuppressedAt info.code line

/-- The unit of a rule. -/
def unit (info : RuleInfo) (requires : List String)
    (check : UnitContext → Except UnitError (List Diagnostic)) : AnalysisUnit where
  id := info.name
  doc := info.description
  requires := requires
  rule := some info
  run := fun cx => (check cx).map Fact.findings

end RuleInfo

/-- A rule that looks at one schema literal at a time. -/
structure SchemaRule where
  /-- How the rule is named. -/
  info : RuleInfo
  /-- What it says about a literal that breaks it. -/
  message : String
  /-- How to mend such a literal. -/
  suggestion : Option String
  /-- Whether a literal breaks it. -/
  isBrokenBy : SchemaLiteral → Bool

namespace SchemaRule

/-- The units that a rule on schema literals depends on. -/
def requires : List String :=
  [Index.schemaLiteralsId, Index.suppressionsId]

/-- The finding on a literal that breaks the rule. -/
def findingOn (r : SchemaRule) (file : SourceFile) (l : SchemaLiteral) : Diagnostic :=
  r.info.finding file l.reportPosition r.message r.suggestion

/-- The findings of the rule: one for each literal that breaks it, unless a directive silences
it. -/
def findings (r : SchemaRule) (file : SourceFile) (s : Suppressions)
    (literals : List SchemaLiteral) : List Diagnostic :=
  (literals.filter fun l => r.isBrokenBy l && !r.info.isSilenced s l.anchorLine).map
    (r.findingOn file)

/-- The unit of the rule. -/
def unit (r : SchemaRule) : AnalysisUnit :=
  r.info.unit requires fun cx => do
    let literals ← cx.read Index.schemaLiteralsId Fact.schemaLiterals?
    let s ← cx.read Index.suppressionsId Fact.suppressions?
    return r.findings cx.file s literals

end SchemaRule

end SchemaLint
