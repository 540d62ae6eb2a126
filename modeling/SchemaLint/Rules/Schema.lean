import SchemaLint.Engine.Rule

/-!
# Rules on schema literals

* `Rules.collectionMissingElem` and ten others: what a schema literal must and must not set.
* `Rules.schemaRules`: all of them in the order of registration.
-/

namespace SchemaLint.Rules

/-- A rule whose findings are errors. -/
def schemaRule (code name description message : String) (suggestion : Option String)
    (isBrokenBy : SchemaLiteral → Bool) : SchemaRule :=
  ⟨⟨name, code, description, .error⟩, message, suggestion, isBrokenBy⟩

/-- Whether a schema is declared as a list or a set. -/
def isCollection (l : SchemaLiteral) : Bool :=
  l.isOneOfTypes ["List", "Set"]

/-- Lists and sets describe their elements. -/
def collectionMissingElem : SchemaRule :=
  schemaRule "S001" "collection-missing-elem"
    "Requires Elem on TypeList and TypeSet schemas"
    "schema of TypeList or TypeSet should include Elem"
    none
    fun l => isCollection l && !l.hasField "elem"

/-- What is required is not optional. -/
def requiredOptionalConflict : SchemaRule :=
  schemaRule "S002" "required-optional-conflict"
    "Forbids schemas that enable both Required and Optional"
    "schema should not enable Required and Optional"
    none
    fun l => l.isSetTrue "required" && l.isSetTrue "optional"

/-- What is required is not computed. -/
def requiredComputedConflict : SchemaRule :=
  schemaRule "S003" "required-computed-conflict"
    "Forbids schemas that enable both Required and Computed"
    "schema should not enable Required and Computed"
    (some "Use `optional: true` with `computed: true` for provider-filled values")
    fun l => l.isSetTrue "required" && l.isSetTrue "computed"

/-- What is required has no default. -/
def requiredDefaultConflict : SchemaRule :=
  schemaRule "S004" "required-default-conflict"
    "Forbids schemas that enable Required and configure Default"
    "schema should not enable Required and configure Default"
    (some "Remove `default`, or replace `required` with `optional`")
    fun l => l.isSetTrue "required" && l.hasField "default"

/-- What is only computed has no default. -/
def computedOnlyDefault : SchemaRule :=
  schemaRule "S005" "computed-only-default"
    "Forbids Default on schemas that only enable Computed"
    "schema should not only enable Computed and configure Default"
    none
    fun l => l.isSetTrue "computed" && !l.isSetTrue "optional" && l.hasField "default"

/-- Maps describe their values. -/
def mapMissingElem : SchemaRule :=
  schemaRule "S006" "map-missing-elem"
    "Requires Elem on TypeMap schemas"
    "schema of TypeMap should include Elem"
    (some "Add `elem: Some(Elem::Schema(..))` describing the map values")
    fun l => l.isOneOfTypes ["Map"] && !l.hasField "elem"

/-- Lists and sets have no default. -/
def collectionDefaultConflict : SchemaRule :=
  schemaRule "S008" "collection-default-conflict"
    "Forbids Default on TypeList and TypeSet schemas"
    "schema of TypeList or TypeSet should not include Default"
    none
    fun l => isCollection l && l.hasField "default"

/-- Lists and sets are validated element by element. -/
def collectionValidateFunc : SchemaRule :=
  schemaRule "S009" "collection-validate-func"
    "Forbids ValidateFunc on TypeList and TypeSet schemas"
    "schema of TypeList or TypeSet should not include ValidateFunc"
    (some "Move the validation into the `elem` schema")
    fun l => isCollection l && l.hasField "validate_func"

/-- What is only computed is not validated. -/
def computedOnlyValidateFunc : SchemaRule :=
  schemaRule "S010" "computed-only-validate-func"
    "Forbids ValidateFunc on schemas that only enable Computed"
    "schema should not only enable Computed and configure ValidateFunc"
    (some "Remove `validate_func`, or make the attribute optional")
    fun l => l.isSetTrue "computed" && !l.isSetTrue "optional" && !l.isSetTrue "required" &&
      l.hasField "validate_func"

/-- Every schema has a type. -/
def missingType : SchemaRule :=
  schemaRule "S012" "missing-type"
    "Requires Type on every schema"
    "schema should configure Type"
    none
    fun l => !l.hasField "type"

/-- Whether a field is neither true nor set to an expression that might be. -/
def isSurelyOff (l : SchemaLiteral) (name : String) : Bool :=
  !l.isSetTrue name && (l.expression? name).isNone

/-- Every schema says where its value comes from, unless other fields are filled from somewhere
else or it only describes elements. -/
def missingPresence : SchemaRule :=
  schemaRule "S013" "missing-presence"
    "Requires one of Computed, Optional, or Required"
    "schema should configure one of Computed, Optional, or Required"
    none
    fun l => !l.hasRest && l.enclosingField != some "elem" &&
      ["computed", "optional", "required"].all (isSurelyOff l)

/-- All rules on schema literals. -/
def schemaRules : List SchemaRule :=
  [collectionMissingElem, requiredOptionalConflict, requiredComputedConflict,
    requiredDefaultConflict, computedOnlyDefault, mapMissingElem, collectionDefaultConflict,
    collectionValidateFunc, computedOnlyValidateFunc, missingType, missingPresence]

end SchemaLint.Rules
