import SchemaLint.Engine.Fact
import SchemaLint.Failure
import SchemaLint.Settings
import SchemaLint.SourceFile

/-!
# Analysis units

An analysis unit computes one fact for each file from the file and from the facts of the units it
depends on.  A rule is a unit whose fact is its findings.

* `RuleInfo`: how a rule is named.
* `UnitContext`: what a unit is given.
* `UnitContext.read`: the fact of a dependency.
* `AnalysisUnit`: a unit.
-/

namespace SchemaLint

/-- How a rule is named. -/
structure RuleInfo where
  /-- Name of the rule. -/
  name : String
  /-- Its short code. -/
  code : String
  /-- What it checks. -/
  description : String
  /-- How serious its findings are unless configured otherwise. -/
  severity : Severity
deriving DecidableEq, Repr

/-- One call of a unit. -/
structure UnitCall where
  /-- The unit. -/
  unit : String
  /-- Number of the file. -/
  fileId : Nat
  /-- Path of the file. -/
  path : FilePath
deriving DecidableEq, Repr

/-- What a unit is given. -/
structure UnitContext where
  /-- The file. -/
  file : SourceFile
  /-- The settings of the analysis. -/
  settings : Settings
  /-- The code of the file, if it is valid. -/
  code : Option Code.CodeFile
  /-- Where and why the parser gave up on the file if it is not valid, as far as that is known. -/
  fault : Option SyntaxFault
  /-- The facts of the units it depends on, in the declared order. -/
  facts : List (String × Fact)
  /-- The calls of units before this one, the latest first. -/
  earlier : List UnitCall

namespace UnitContext

/-- The code of the file; a file that is not valid code fails the unit. -/
def parsed (cx : UnitContext) : Except UnitError Code.CodeFile :=
  match cx.code with
  | some file => .ok file
  | none => .error (.ofFault cx.fault)

/-- The fact of a dependency, as one of a kind. -/
def read {α : Type} (cx : UnitContext) (unit : String) (kind : Fact → Option α) :
    Except UnitError α :=
  match cx.facts.lookup unit with
  | none => .error (.undeclared unit)
  | some fact =>
    match kind fact with
    | some a => .ok a
    | none => .error (.factType unit)

end UnitContext

/-- A unit: what it depends on and how its fact is computed. -/
structure AnalysisUnit where
  /-- Id of the unit; for a rule its name. -/
  id : String
  /-- What it computes. -/
  doc : String
  /-- The units it depends on. -/
  requires : List String
  /-- The rule it is, if it is one. -/
  rule : Option RuleInfo
  /-- The fact of a file. -/
  run : UnitContext → Except UnitError Fact

end SchemaLint
