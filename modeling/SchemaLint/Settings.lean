import SchemaLint.SchemaSettings
import SchemaLint.Text.Class

/-!
# Settings of an analysis

* `ConfigurationError`: why an analysis cannot be set up.
* `Settings`: what all units of an analysis share.
* `Settings.validate`: settings that make sense.
-/

namespace SchemaLint

/-- Why an analysis cannot be set up. -/
inductive ConfigurationError
  /-- Units depend on each other in a circle. -/
  | cycle (units : List String)
  /-- A requested rule or unit does not exist. -/
  | unknownUnit (id : String)
  /-- A unit depends on one that does not exist. -/
  | unknownDependency (unit dependency : String)
  /-- Two units share an id, or two rules a code. -/
  | duplicateUnit (id : String)
  /-- A rule depends on a unit that comes after it. -/
  | forwardReference (rule dependency : String)
  /-- The marker of directives cannot be recognised in a comment. -/
  | invalidMarker (marker : String)
deriving DecidableEq, Repr

/-- The wording of a configuration error. -/
def ConfigurationError.message : ConfigurationError → String
  | .cycle units => "dependency cycle between units: " ++ " -> ".intercalate units
  | .unknownUnit id => "unknown rule or unit `" ++ id ++ "`"
  | .unknownDependency unit dependency =>
    "unit `" ++ unit ++ "` depends on unknown unit `" ++ dependency ++ "`"
  | .duplicateUnit id => "unit id `" ++ id ++ "` is registered twice"
  | .forwardReference rule dependency =>
    "rule `" ++ rule ++ "` depends on `" ++ dependency ++ "`, which is registered after it"
  | .invalidMarker marker => "invalid suppression marker `" ++ marker ++ "`"

/-- What all units of an analysis share. -/
structure Settings where
  /-- What counts as a schema. -/
  schema : SchemaSettings := {}
  /-- The word that begins a suppression directive. -/
  marker : String := "provider-lint:ignore"
  /-- Whether a directive must say why. -/
  requireJustification : Bool := false
deriving DecidableEq, Repr, Inhabited

namespace Settings

/-- Whether a word can begin a directive: it is not empty and has no blanks. -/
def isMarker (word : String) : Bool :=
  !word.isEmpty && word.toList.all fun c => !Text.isBlank c

/-- The settings, unless their marker cannot begin a directive. -/
def validate (s : Settings) : Except ConfigurationError Settings :=
  if isMarker s.marker then .ok s else .error (.invalidMarker s.marker)

end Settings

end SchemaLint
