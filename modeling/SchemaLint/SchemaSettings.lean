/-!
# What counts as a schema

* `SchemaSettings`: the types and methods that an analysis looks for.
-/

namespace SchemaLint

/-- The types and methods that an analysis looks for; types are patterns over paths. -/
structure SchemaSettings where
  /-- Types whose record literals are schemas. -/
  types : List String := ["tfschema::Schema"]
  /-- The enumeration of value types. -/
  valueType : String := "tfschema::ValueType"
  /-- Types of the bindings that setters are called on. -/
  resourceData : List String := ["tfschema::ResourceData"]
  /-- Methods that set a value. -/
  setterMethods : List String := ["set"]
deriving DecidableEq, Repr, Inhabited

end SchemaLint
