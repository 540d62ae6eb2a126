import SchemaLint.Engine.AnalysisUnit

/-!
# Index units

The units that other units build on: the imports, schema literals, setter calls and suppression
directives of a file.

* `Index.all`: the index units in the order of registration.
-/

namespace SchemaLint.Index

/-- Id of the unit that finds imports. -/
def importsId : String := "imports"

/-- Id of the unit that finds schema literals. -/
def schemaLiteralsId : String := "schema-literals"

/-- Id of the unit that finds setter calls. -/
def setterCallsId : String := "setter-calls"

/-- Id of the unit that finds suppression directives. -/
def suppressionsId : String := "suppressions"

/-- The imports of a file. -/
def imports : AnalysisUnit where
  id := importsId
  doc := "Resolves paths through the use declarations of a file"
  requires := []
  rule := none
  run := fun cx => do return .imports (ImportTable.ofNodes (← cx.parsed).nodes)

/-- The schema literals of a file. -/
def schemaLiterals : AnalysisUnit where
  id := schemaLiteralsId
  doc := "Struct literals of the configured schema types"
  requires := [importsId]
  rule := none
  run := fun cx => do
    let table ← cx.read importsId Fact.imports?
    return .schemaLiterals (SchemaLiteral.collect table cx.settings.schema (← cx.parsed).nodes)

/-- The setter calls of a file. -/
def setterCalls : AnalysisUnit where
  id := setterCallsId
  doc := "Setter calls on resource data bindings"
  requires := [importsId]
  rule := none
  run := fun cx => do
    let table ← cx.read importsId Fact.imports?
    return .setterCalls (SetterCall.collect table cx.settings.schema (← cx.parsed).nodes)

/-- The suppression directives of a file; its code need not be valid. -/
def suppressions : AnalysisUnit where
  id := suppressionsId
  doc := "Suppression directives in comments"
  requires := []
  rule := none
  run := fun cx => .ok (.suppressions (Suppressions.scan cx.settings.marker cx.file.content))

/-- The index units in the order of registration. -/
def all : List AnalysisUnit :=
  [imports, schemaLiterals, setterCalls, suppressions]

end SchemaLint.Index
