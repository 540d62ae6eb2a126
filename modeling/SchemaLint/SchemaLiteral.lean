import SchemaLint.ImportTable
import SchemaLint.PathPattern
import SchemaLint.SchemaSettings

/-!
# Schema literals

A schema literal is a record literal of a configured type.  Its fields are read as truth values,
value types or other expressions; a field that is set to nothing counts as unset.

* `FieldValue.classify`: how a field expression is read.
* `SchemaLiteral.collect`: the schema literals of a file, outer ones first.
* `Flag`, `SchemaLiteral.flag` and others: reading the fields of a literal.
-/

namespace SchemaLint

open Code

/-- The value of a schema field. -/
inductive FieldValue
  /-- A truth value. -/
  | bool (value : Bool)
  /-- A variant of the value type. -/
  | valueType (variant : String)
  /-- Any other expression, as text. -/
  | expression (text : String)
deriving DecidableEq, Repr

/-- One field of a schema literal. -/
structure FieldEntry where
  /-- Name without raw mark. -/
  name : String
  /-- Its value. -/
  value : FieldValue
  /-- Where the name stands. -/
  position : Position
deriving DecidableEq, Repr

/-- A record literal of a configured schema type. -/
structure SchemaLiteral where
  /-- The type path as written, without raw marks. -/
  typePath : String
  /-- Where the last segment of the type path stands. -/
  typeToken : Position
  /-- Where the opening brace stands. -/
  openBrace : Position
  /-- Where the expression begins. -/
  start : Position
  /-- The fields that are set, in source order. -/
  fields : List FieldEntry
  /-- Whether other fields are filled from somewhere else. -/
  hasRest : Bool
  /-- The field of the enclosing schema literal in which this one stands.  There is none if
  another record literal lies between. -/
  enclosingField : Option String
deriving DecidableEq, Repr

/-! ## Classifying field expressions -/

/-- The spellings of the absent value. -/
def isAbsentPath (path : String) : Bool :=
  ["None", "Option::None", "std::option::Option::None", "core::option::Option::None"].contains path

/-- The spellings of the functions that wrap a value without changing its meaning. -/
def isWrapperPath (path : String) : Bool :=
  ["Some", "Option::Some", "std::option::Option::Some", "core::option::Option::Some", "Box::new",
    "std::boxed::Box::new", "alloc::boxed::Box::new"].contains path

/-- Whether an expression names a wrapping function. -/
def isWrapper (callee : Node) : Bool :=
  match callee.bare with
  | .path name _ => isWrapperPath name.written
  | _ => false

/-- An expression without brackets, references and wrapping calls around it. -/
def stripIndirection : Node → Node
  | .paren _ inner => stripIndirection inner
  | .reference _ inner => stripIndirection inner
  | .call callee place [arg] trailing =>
    if isWrapper callee then stripIndirection arg else .call callee place [arg] trailing
  | .attributed attributes inner =>
    match inner.bare with
    | .paren .. | .reference .. => stripIndirection inner
    | .call callee _ [_] _ =>
      if isWrapper callee then stripIndirection inner else .attributed attributes inner
    | _ => .attributed attributes inner
  | n => n

namespace FieldValue

/-- The variant of the value type that one of the candidate paths denotes. -/
def variantOf? (settings : SchemaSettings) (candidates : List String) : Option String :=
  candidates.findSome? fun candidate =>
    match PathPattern.splitLast? candidate with
    | some (parent, variant) =>
      if PathPattern.matchesType parent settings.valueType then some variant else none
    | none => none

/-- How a field expression is read; nothing if it leaves the field unset. -/
def classify (imports : ImportTable) (settings : SchemaSettings) (e : Node) : Option FieldValue :=
  let e := stripIndirection e
  match e.bare with
  | .literal [.ident "true" _] => some (.bool true)
  | .literal [.ident "false" _] => some (.bool false)
  | .path name _ =>
    if name.qualified then some (.expression e.text)
    else if isAbsentPath name.written then none
    else
      match variantOf? settings (imports.resolve name) with
      | some variant => some (.valueType variant)
      | none => some (.expression e.text)
  | _ => some (.expression e.text)

end FieldValue

namespace SchemaLiteral

/-! ## Collecting -/

/-- Whether a path denotes a schema type. -/
def isSchemaPath (imports : ImportTable) (settings : SchemaSettings) (name : PathName) : Bool :=
  PathPattern.anyMatchesType (imports.resolve name) settings.types

/-- The entry of a field of a schema literal, if the field is set. -/
def fieldOf? (imports : ImportTable) (settings : SchemaSettings) : Node → Option FieldEntry
  | .field _ member _ value =>
    (FieldValue.classify imports settings value).map fun v => ⟨member.plain, v, member.place⟩
  | _ => none

/-- What the collector has found and the fields it stands in, the innermost first. -/
structure Collector where
  /-- The fields of enclosing schema literals up to the nearest other record literal. -/
  enclosing : List String
  /-- The literals found so far, the latest first. -/
  found : List SchemaLiteral

/-- The schema literal that a record literal is. -/
def ofRecord (imports : ImportTable) (settings : SchemaSettings) (enclosing : List String)
    (start : Position) (name : PathName) (openBrace : Position) (fields : List Node)
    (hasRest : Bool) : SchemaLiteral where
  typePath := name.written
  typeToken := (name.segments.getLast?.map (·.place)).getD Position.unknown
  openBrace := openBrace
  start := start
  fields := fields.filterMap (fieldOf? imports settings)
  hasRest := hasRest
  enclosingField := enclosing.head?

mutual

/-- The schema literals of a piece of code. -/
def visit (imports : ImportTable) (settings : SchemaSettings) (s : Collector) : Node → Collector
  | .tokens _ => s
  | .group _ _ inner => visitAll imports settings s inner
  | .seq parts => visitAll imports settings s parts
  | .conditioned parts conditions =>
    visitAll imports settings (visitAll imports settings s conditions) parts
  | .bodied front attributes body =>
    visit imports settings
      (visitAll imports settings (visitAll imports settings s attributes) front) body
  | .arranged _ parts => visitAll imports settings s parts
  | .attributed attributes inner =>
    visit imports settings (visitAll imports settings s attributes) inner
  | .literal _ => s
  | .path _ parts => visitAll imports settings s parts
  | .paren _ inner => visit imports settings s inner
  | .reference mark inner => visit imports settings (visitAll imports settings s mark) inner
  | .deref _ inner => visit imports settings s inner
  | .operation left _ right => visit imports settings (visit imports settings s left) right
  | .call callee _ args _ => visitAll imports settings (visit imports settings s callee) args
  | .methodCall attributes receiver _ _ generics _ args _ =>
    let s := visitAll imports settings s attributes
    let s := visit imports settings s receiver
    let s := visitAll imports settings s generics
    visitAll imports settings s args
  | .record attributes name head place fields trailing dots rest =>
    if isSchemaPath imports settings name then
      let start := Node.place (.record attributes name head place fields trailing dots rest)
      let literal :=
        ofRecord imports settings s.enclosing start name place fields (!dots.isEmpty)
      let inFields := visitFields imports settings { s with found := literal :: s.found } fields
      visitAll imports settings inFields rest
    else
      let inside := visitAll imports settings { s with enclosing := [] } attributes
      let inside := visitAll imports settings inside head
      let inside := visitAll imports settings inside fields
      let inside := visitAll imports settings inside rest
      { inside with enclosing := s.enclosing }
  | .field attributes _ _ value =>
    visit imports settings (visitAll imports settings s attributes) value
  | .scope _ parts => visitAll imports settings s parts
  | .block _ statements => visitAll imports settings s statements
  | .binding attributes pattern init =>
    visitAll imports settings
      (visit imports settings (visitAll imports settings s attributes) pattern) init
  | .binder mark _ sub => visitAll imports settings (visitAll imports settings s mark) sub
  | .typed pattern type => visit imports settings (visit imports settings s pattern) type
  | .use _ parts => visitAll imports settings s parts
  | .macroCall _ arguments => visitAll imports settings s arguments

/-- The schema literals of several pieces of code, in order. -/
def visitAll (imports : ImportTable) (settings : SchemaSettings) (s : Collector) :
    List Node → Collector
  | [] => s
  | n :: rest => visitAll imports settings (visit imports settings s n) rest

/-- The schema literals in the values of a schema literal's fields. -/
def visitFields (imports : ImportTable) (settings : SchemaSettings) (s : Collector) :
    List Node → Collector
  | [] => s
  | .field _ member _ value :: rest =>
    let inside := visit imports settings { s with enclosing := member.plain :: s.enclosing } value
    visitFields imports settings { inside with enclosing := inside.enclosing.drop 1 } rest
  | _ :: rest => visitFields imports settings s rest

end

/-- The schema literals of a file, in document order; an outer literal stands before the ones
inside it. -/
def collect (imports : ImportTable) (settings : SchemaSettings) (items : List Node) :
    List SchemaLiteral :=
  (visitAll imports settings ⟨[], []⟩ items).found.reverse

/-! ## Reading -/

/-- The first field of a given name. -/
def entry (l : SchemaLiteral) (name : String) : Option FieldEntry :=
  l.fields.find? fun f => f.name == name

/-- Whether a field is set. -/
def hasField (l : SchemaLiteral) (name : String) : Bool :=
  (l.entry name).isSome

/-- The value of a field. -/
def value? (l : SchemaLiteral) (name : String) : Option FieldValue :=
  (l.entry name).map (·.value)

/-- The declared value type. -/
def declaredType? (l : SchemaLiteral) : Option String :=
  match l.value? "type" with
  | some (.valueType variant) => some variant
  | _ => none

/-- Whether the declared value type is one of several. -/
def isOneOfTypes (l : SchemaLiteral) (types : List String) : Bool :=
  match l.declaredType? with
  | some declared => types.contains declared
  | none => false

/-- Whether one of several fields is set. -/
def hasAnyField (l : SchemaLiteral) (names : List String) : Bool :=
  names.any l.hasField

/-- The text of a field that is set to an expression. -/
def expression? (l : SchemaLiteral) (name : String) : Option String :=
  match l.value? name with
  | some (.expression text) => some text
  | _ => none

/-- Where findings on the literal are reported: at its type name, or at its brace if the name has
no place. -/
def reportPosition (l : SchemaLiteral) : Position :=
  if l.typeToken.isKnown then l.typeToken else l.openBrace

/-- The line that directives are matched against. -/
def anchorLine (l : SchemaLiteral) : Nat :=
  l.reportPosition.line

end SchemaLiteral

/-- The reading of a truth-valued field. -/
inductive Flag
  /-- Not set, or not set to a truth value. -/
  | absent
  /-- Set to false. -/
  | isFalse
  /-- Set to true. -/
  | isTrue
deriving DecidableEq, Repr

/-- The reading of a truth-valued field of a literal. -/
def SchemaLiteral.flag (l : SchemaLiteral) (name : String) : Flag :=
  match l.value? name with
  | some (.bool true) => .isTrue
  | some (.bool false) => .isFalse
  | _ => .absent

/-- Whether a field is set to true. -/
def SchemaLiteral.isSetTrue (l : SchemaLiteral) (name : String) : Bool :=
  l.flag name == .isTrue

end SchemaLint
