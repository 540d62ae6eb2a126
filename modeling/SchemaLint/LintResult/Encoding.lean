import SchemaLint.Json
import SchemaLint.LintResult

/-!
# Results as JSON

The encoding of results and the reading of encoded results.  A reader ignores members that it does
not know; a finding without advice may leave the member out or hold null there, and a result may
leave out its failures.  Only the members of an error are held until its kind is known, so they have
to be values that a reader can hold.

* `LintResult.toJson`, `LintResult.ofJson?`: results.
* `Diagnostic.toJson`, `Diagnostic.ofJson?`: findings.
* `UnitFailure.toJson`, `UnitFailure.ofJson?`: failures.
-/

namespace SchemaLint

/-! ## Findings -/

/-- The severity a value names, as a string or as the only member of an object. -/
def Severity.ofJson? : Json → Option Severity
  | .text s => ofName? s
  | .object [(name, .null)] => ofName? name
  | _ => none

/-- The encoding of a location. -/
def Location.toJson (l : Location) : Json :=
  .object [("file", .text l.file.text), ("line", .number l.line), ("column", .number l.column),
    ("offset", .number l.offset), ("length", .number l.length)]

/-- The location a value encodes. -/
def Location.ofJson? (v : Json) : Option Location := do
  let ms ← v.record? ["file", "line", "column", "offset", "length"]
  let file ← (← ms.lookup "file").text?
  let line ← (← ms.lookup "line").natural?
  let column ← (← ms.lookup "column").natural?
  let offset ← (← ms.lookup "offset").natural?
  let length ← (← ms.lookup "length").natural?
  return ⟨⟨file⟩, line, column, offset, length⟩

/-- The encoding of a finding; the advice is left out if there is none. -/
def Diagnostic.toJson (d : Diagnostic) : Json :=
  .object ([("code", .text d.code), ("rule", .text d.rule), ("severity", .text d.severity.name),
    ("location", d.location.toJson), ("message", .text d.message)] ++
    match d.suggestion with
    | some help => [("suggestion", .object [("message", .text help)])]
    | none => [])

/-- The advice a member encodes. -/
def suggestionOfJson? : Option Json → Option (Option String)
  | none => some none
  | some .null => some none
  | some v => do
    let ms ← v.record? ["message"]
    let help ← (← ms.lookup "message").text?
    return some help

/-- The finding a value encodes. -/
def Diagnostic.ofJson? (v : Json) : Option Diagnostic := do
  let ms ← v.record? ["code", "rule", "severity", "location", "message", "suggestion"]
  let code ← (← ms.lookup "code").text?
  let rule ← (← ms.lookup "rule").text?
  let severity ← Severity.ofJson? (← ms.lookup "severity")
  let location ← Location.ofJson? (← ms.lookup "location")
  let message ← (← ms.lookup "message").text?
  let suggestion ← suggestionOfJson? (ms.lookup "suggestion")
  return { code, rule, severity, location, message, suggestion }

/-- The findings a value encodes. -/
def Diagnostic.listOfJson? (v : Json) : Option (List Diagnostic) := do
  (← v.array?).mapM Diagnostic.ofJson?

/-! ## Failures -/

/-- The name of the kind of an error. -/
def UnitError.kindName : UnitError → String
  | .parse _ => "parse"
  | .failed _ => "failed"
  | .dependencyFailed _ => "dependency-failed"
  | .factType _ => "fact-type"
  | .undeclared _ => "undeclared"

/-- The encoding of an error. -/
def UnitError.toJson (e : UnitError) : Json :=
  .object [("kind", .text e.kindName),
    match e with
    | .parse m => ("message", .text m)
    | .failed m => ("message", .text m)
    | .dependencyFailed d => ("dependency", .text d)
    | .factType u => ("unit", .text u)
    | .undeclared u => ("unit", .text u)]

/-- The member that an error of a kind has beside its kind, and the error it makes. -/
def UnitError.ofKind? : String → Option (String × (String → UnitError))
  | "parse" => some ("message", .parse)
  | "failed" => some ("message", .failed)
  | "dependency-failed" => some ("dependency", .dependencyFailed)
  | "fact-type" => some ("unit", .factType)
  | "undeclared" => some ("unit", .undeclared)
  | _ => none

/-- The levels that a reader has left for an error: of the 127 that it goes down, an error of a
result is on the fourth. -/
def UnitError.levels : Nat := 124

/-- The error a value encodes; in a list the kind comes first.  The members of an object are held
before the kind is known. -/
def UnitError.ofJson? : Json → Option UnitError
  | .object ms => do
    guard ((Json.object ms).isHeld levels)
    let (name, make) ← ofKind? (← (← ms.lookup "kind").text?)
    let ms ← (Json.object ms).record? ["kind", name]
    return make (← (← ms.lookup name).text?)
  | .array [kind, value] => do
    let (_, make) ← ofKind? (← kind.text?)
    return make (← value.text?)
  | _ => none

/-- The encoding of a failure. -/
def UnitFailure.toJson (f : UnitFailure) : Json :=
  .object [("unit", .text f.unit), ("file", .text f.file.text), ("error", f.error.toJson)]

/-- The failure a value encodes. -/
def UnitFailure.ofJson? (v : Json) : Option UnitFailure := do
  let ms ← v.record? ["unit", "file", "error"]
  let unit ← (← ms.lookup "unit").text?
  let file ← (← ms.lookup "file").text?
  let error ← UnitError.ofJson? (← ms.lookup "error")
  return ⟨unit, ⟨file⟩, error⟩

/-- The failures a member encodes; none if it is left out. -/
def failuresOfJson? : Option Json → Option (List UnitFailure)
  | none => some []
  | some v => do (← v.array?).mapM UnitFailure.ofJson?

/-! ## Results -/

namespace LintResult

/-- The encoding of a result. -/
def toJson (r : LintResult) : Json :=
  .object [("diagnostics", .array (r.diagnostics.map Diagnostic.toJson)),
    ("failures", .array (r.failures.map UnitFailure.toJson)),
    ("files_checked", .number r.filesChecked)]

/-- The result a value encodes. -/
def ofJson? (v : Json) : Option LintResult := do
  let ms ← v.record? ["diagnostics", "failures", "files_checked"]
  let diagnostics ← Diagnostic.listOfJson? (← ms.lookup "diagnostics")
  let failures ← failuresOfJson? (ms.lookup "failures")
  let filesChecked ← (← ms.lookup "files_checked").natural?
  return { diagnostics, failures, filesChecked }

end LintResult

end SchemaLint
