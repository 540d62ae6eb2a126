import SchemaLint.Diagnostic
import SchemaLint.Failure

/-!
# Results of an analysis

* `LintResult`: the findings and failures of an analysis.
* `LintResult.hasDiagnosticsAt`, `LintResult.count`: how serious the findings are.
-/

namespace SchemaLint

/-- The findings and failures of an analysis. -/
structure LintResult where
  /-- The findings in order. -/
  diagnostics : List Diagnostic
  /-- The failures in order. -/
  failures : List UnitFailure
  /-- Number of analysed files. -/
  filesChecked : Nat
deriving DecidableEq, Repr

namespace LintResult

/-- Whether some finding is at least so serious. -/
def hasDiagnosticsAt (r : LintResult) (severity : Severity) : Bool :=
  r.diagnostics.any fun d => severity.rank ≤ d.severity.rank

/-- Whether some finding is an error. -/
def hasErrors (r : LintResult) : Bool :=
  r.hasDiagnosticsAt .error

/-- Whether some unit failed. -/
def hasFailures (r : LintResult) : Bool :=
  !r.failures.isEmpty

/-- Number of findings of a severity. -/
def count (r : LintResult) (severity : Severity) : Nat :=
  r.diagnostics.countP fun d => d.severity == severity

end LintResult

end SchemaLint
