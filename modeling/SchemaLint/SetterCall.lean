import SchemaLint.ImportTable
import SchemaLint.PathPattern
import SchemaLint.SchemaSettings

/-!
# Setter calls

A setter call is a call of a configured method on a binding of a configured resource data type.
Parameters of functions and closures and `let` statements bind names; a binding without a visible
type hides an outer one of the same name.

* `SetterCall.visit`: the calls of a piece of code, under a stack of scopes.
* `SetterCall.collect`: the calls of a file.
-/

namespace SchemaLint

open Code

/-- An argument of a setter call. -/
structure CallArgument where
  /-- Where it begins. -/
  position : Position
  /-- Whether it is a literal of any kind. -/
  isLiteral : Bool
  /-- Its text. -/
  text : String
deriving DecidableEq, Repr

/-- A call of a setter on a resource data binding. -/
structure SetterCall where
  /-- The method. -/
  method : String
  /-- The binding it is called on. -/
  receiver : String
  /-- Where the receiver begins. -/
  start : Position
  /-- Where the method name stands. -/
  methodPosition : Position
  /-- The arguments in order. -/
  args : List CallArgument
deriving DecidableEq, Repr

/-- A scope: bound names and whether they are resource data; the first entry of a name counts. -/
abbrev Scope := List (String × Bool)

namespace SetterCall

/-- Whether a type denotes resource data, through references and brackets. -/
def isResourceData (imports : ImportTable) (settings : SchemaSettings) : Node → Bool
  | .reference _ inner => isResourceData imports settings inner
  | .paren _ inner => isResourceData imports settings inner
  | .path name _ =>
    !name.qualified && PathPattern.anyMatchesType (imports.resolve name) settings.resourceData
  | _ => false

/-- The binding that a pattern makes, if it names one directly. -/
def bindingOf? (imports : ImportTable) (settings : SchemaSettings) (tracked : Bool) :
    Node → Option (String × Bool)
  | .attributed _ inner => bindingOf? imports settings tracked inner
  | .binder _ name _ => some (name.name, tracked)
  | .typed pattern type =>
    bindingOf? imports settings (isResourceData imports settings type) pattern
  | _ => none

/-- The name of the binding that a receiver refers to, through brackets, references and
dereferences. -/
def receiverName? : Node → Option String
  | .attributed _ inner => receiverName? inner
  | .paren _ inner => receiverName? inner
  | .reference _ inner => receiverName? inner
  | .deref _ inner => receiverName? inner
  | .path name _ => if name.qualified then none else name.ident?.map (·.name)
  | _ => none

/-- Whether an expression is a literal, through brackets. -/
def isLiteral : Node → Bool
  | .attributed _ inner => isLiteral inner
  | .paren _ inner => isLiteral inner
  | .literal _ => true
  | _ => false

/-- An argument of a call. -/
def argument (n : Node) : CallArgument :=
  ⟨n.place, isLiteral n, n.text⟩

/-- The scopes around a piece of code and the calls found so far. -/
structure Collector where
  /-- The open scopes, the innermost first. -/
  scopes : List Scope
  /-- The calls found so far, the latest first. -/
  found : List SetterCall

namespace Collector

/-- Whether a name refers to resource data: its innermost binding decides. -/
def isTracked (s : Collector) (name : String) : Bool :=
  (s.scopes.findSome? fun scope => scope.lookup name).getD false

/-- One more scope, with some bindings in order. -/
def enter (s : Collector) (bindings : List (String × Bool)) : Collector :=
  { s with scopes := bindings.reverse :: s.scopes }

/-- The innermost scope left. -/
def leave (s : Collector) : Collector :=
  { s with scopes := s.scopes.drop 1 }

/-- A binding made in the innermost scope. -/
def bind (s : Collector) : Option (String × Bool) → Collector
  | none => s
  | some binding =>
    match s.scopes with
    | [] => s
    | scope :: outer => { s with scopes := (binding :: scope) :: outer }

end Collector

/-- The call that a method call is, if it is a setter call. -/
def ofMethodCall? (settings : SchemaSettings) (s : Collector) (receiver : Node) (method : Ident)
    (args : List Node) : Option SetterCall :=
  if settings.setterMethods.contains method.name then
    match receiverName? receiver with
    | some name =>
      if s.isTracked name then
        some ⟨method.name, name, receiver.place, method.place, args.map argument⟩
      else none
    | none => none
  else none

mutual

/-- The setter calls of a piece of code. -/
def visit (imports : ImportTable) (settings : SchemaSettings) (s : Collector) : Node → Collector
  | .tokens _ => s
  | .group _ _ inner => visitAll imports settings s inner
  | .seq parts => visitAll imports settings s parts
  | .conditioned parts conditions =>
    visitAll imports settings (visitAll imports settings s conditions) parts
  | .bodied front attributes body =>
    visit imports settings
      (visitAll imports settings (visitAll imports settings s attributes) front) body
  | .arranged _ parts => visitAll imports settings s parts
  | .attributed attributes inner =>
    visit imports settings (visitAll imports settings s attributes) inner
  | .literal _ => s
  | .path _ parts => visitAll imports settings s parts
  | .paren _ inner => visit imports settings s inner
  | .reference mark inner => visit imports settings (visitAll imports settings s mark) inner
  | .deref _ inner => visit imports settings s inner
  | .operation left _ right => visit imports settings (visit imports settings s left) right
  | .call callee _ args _ => visitAll imports settings (visit imports settings s callee) args
  | .methodCall attributes receiver _ method generics _ args _ =>
    let s := { s with found := (ofMethodCall? settings s receiver method args).toList ++ s.found }
    let s := visitAll imports settings s attributes
    let s := visit imports settings s receiver
    let s := visitAll imports settings s generics
    visitAll imports settings s args
  | .record attributes _ head _ fields _ _ rest =>
    let s := visitAll imports settings s attributes
    let s := visitAll imports settings s head
    let s := visitAll imports settings s fields
    visitAll imports settings s rest
  | .field attributes _ _ value =>
    visit imports settings (visitAll imports settings s attributes) value
  | .scope params parts =>
    let bindings := params.filterMap (bindingOf? imports settings false)
    (visitAll imports settings (s.enter bindings) parts).leave
  | .block _ statements => (visitAll imports settings (s.enter []) statements).leave
  | .binding _ pattern init =>
    (visitAll imports settings s init).bind (bindingOf? imports settings false pattern)
  | .binder mark _ sub => visitAll imports settings (visitAll imports settings s mark) sub
  | .typed pattern type => visit imports settings (visit imports settings s pattern) type
  | .use _ parts => visitAll imports settings s parts
  | .macroCall _ arguments => visitAll imports settings s arguments

/-- The setter calls of several pieces of code, in order. -/
def visitAll (imports : ImportTable) (settings : SchemaSettings) (s : Collector) :
    List Node → Collector
  | [] => s
  | n :: rest => visitAll imports settings (visit imports settings s n) rest

end

/-- The setter calls of a file, in document order. -/
def collect (imports : ImportTable) (settings : SchemaSettings) (items : List Node) :
    List SetterCall :=
  (visitAll imports settings ⟨[[]], []⟩ items).found.reverse

/-- Where findings on the call are reported. -/
def reportPosition (c : SetterCall) : Position :=
  c.start

/-- The line that directives are matched against. -/
def anchorLine (c : SetterCall) : Nat :=
  c.reportPosition.line

end SetterCall

end SchemaLint
