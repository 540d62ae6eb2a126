import SchemaLint.Diagnostic
import SchemaLint.Directive
import SchemaLint.SchemaLiteral
import SchemaLint.SetterCall

/-!
# Facts

A fact is what an analysis unit finds out about one file.

* `Fact`: the kinds of facts.
* `Fact.number?`, `Fact.findings?` and others: a fact as one of a kind.
-/

namespace SchemaLint

/-- What a unit finds out about a file. -/
inductive Fact
  /-- A number. -/
  | number (n : Nat)
  /-- A text. -/
  | text (s : String)
  /-- The findings of a rule. -/
  | findings (ds : List Diagnostic)
  /-- The imports of the file. -/
  | imports (table : ImportTable)
  /-- Its schema literals. -/
  | schemaLiterals (literals : List SchemaLiteral)
  /-- Its setter calls. -/
  | setterCalls (calls : List SetterCall)
  /-- Its suppression directives. -/
  | suppressions (s : Suppressions)
deriving DecidableEq, Repr

namespace Fact

/-- The fact as a number. -/
def number? : Fact → Option Nat
  | .number n => some n
  | _ => none

/-- The fact as findings. -/
def findings? : Fact → Option (List Diagnostic)
  | .findings ds => some ds
  | _ => none

/-- The fact as imports. -/
def imports? : Fact → Option ImportTable
  | .imports t => some t
  | _ => none

/-- The fact as schema literals. -/
def schemaLiterals? : Fact → Option (List SchemaLiteral)
  | .schemaLiterals ls => some ls
  | _ => none

/-- The fact as setter calls. -/
def setterCalls? : Fact → Option (List SetterCall)
  | .setterCalls cs => some cs
  | _ => none

/-- The fact as suppression directives. -/
def suppressions? : Fact → Option Suppressions
  | .suppressions s => some s
  | _ => none

end Fact

end SchemaLint
