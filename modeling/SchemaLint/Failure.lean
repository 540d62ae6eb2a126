import SchemaLint.FilePath

/-!
# Failures of analysis units

* `SyntaxFault`: where and why the parser of code gives up on a text.
* `UnitError`: why a unit has no fact for a file.
* `UnitFailure`: the failure of a unit on a file.
-/

namespace SchemaLint

/-- Where and why the parser of code gives up on a text. -/
structure SyntaxFault where
  /-- The line, from one. -/
  line : Nat
  /-- The column, from zero. -/
  column : Nat
  /-- What the parser says. -/
  reason : String
deriving DecidableEq, Repr

/-- The wording of a fault, its column from one. -/
def SyntaxFault.message (f : SyntaxFault) : String :=
  toString f.line ++ ":" ++ toString (f.column + 1) ++ ": " ++ f.reason

/-- Why a unit has no fact for a file. -/
inductive UnitError
  /-- The file is not valid code. -/
  | parse (message : String)
  /-- The unit gave up. -/
  | failed (message : String)
  /-- A unit it depends on failed. -/
  | dependencyFailed (dependency : String)
  /-- The fact of a dependency is not of the kind that was asked for. -/
  | factType (unit : String)
  /-- The unit asked for the fact of a unit that it does not depend on. -/
  | undeclared (unit : String)
deriving DecidableEq, Repr

namespace UnitError

/-- The error of a file that is not valid code; it has no words where the fault is not known. -/
def ofFault (fault : Option SyntaxFault) : UnitError :=
  .parse ((fault.map SyntaxFault.message).getD "")

/-- The wording of an error. -/
def message : UnitError → String
  | .parse m => "parse error: " ++ m
  | .failed m => m
  | .dependencyFailed d => "skipped: dependency `" ++ d ++ "` failed"
  | .factType u => "fact of `" ++ u ++ "` has an unexpected type"
  | .undeclared u => "`" ++ u ++ "` is not a declared dependency"

/-- Whether the unit was not run at all. -/
def isSkip : UnitError → Bool
  | .dependencyFailed _ => true
  | _ => false

end UnitError

/-- The failure of a unit on a file. -/
structure UnitFailure where
  /-- The unit. -/
  unit : String
  /-- The file, relative to the analysed root. -/
  file : FilePath
  /-- Why it failed. -/
  error : UnitError
deriving DecidableEq, Repr

namespace UnitFailure

/-- One-line form of a failure. -/
def display (f : UnitFailure) : String :=
  f.file.text ++ ": unit `" ++ f.unit ++ "` " ++ f.error.message

/-- The order of failures: by file, then by unit. -/
def compare (a b : UnitFailure) : Ordering :=
  (a.file.compare b.file).then (Ord.compare a.unit b.unit)

end UnitFailure

end SchemaLint
