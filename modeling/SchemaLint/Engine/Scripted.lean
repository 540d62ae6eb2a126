import SchemaLint.Engine.Rule

/-!
# Scripted units

Units that behave as a script says.  They make an engine's behaviour visible from outside: what is
run when, what a failure leads to, and which facts a unit may read.

* `Script`: how a unit goes on before it has a fact.
* `Script.play`: playing a script.
* `Script.analysis`, `Script.rule`: units with a script.
* `Condition`: what a scripted rule asks of a schema literal.
-/

namespace SchemaLint

/-- How a unit goes on before it has a fact. -/
structure Script where
  /-- The message with which it fails. -/
  fail : Option String := none
  /-- The path on which it fails. -/
  failOn : Option String := none
  /-- Whether it fails when it is first called on a path. -/
  failFirst : Bool := false
  /-- The units whose facts it reads as numbers. -/
  reads : List String := []
  /-- Whether it needs valid code. -/
  parses : Bool := false
deriving DecidableEq, Repr

/-- What the fact of a scripted unit is. -/
inductive ScriptedFact
  /-- A given number. -/
  | constant (n : Nat)
  /-- A given text. -/
  | text (s : String)
  /-- The number of items of the file. -/
  | itemCount
  /-- One more than the sum of the facts it depends on. -/
  | successor
deriving DecidableEq, Repr

namespace Script

/-- What a script does to a unit. -/
def play (s : Script) (id : String) (cx : UnitContext) : Except UnitError Unit := do
  if let some message := s.fail then throw (.failed message)
  if s.failOn == some cx.file.path.text then
    throw (.failed ("failed on " ++ cx.file.path.text))
  if s.failFirst && !cx.earlier.any (fun c => c.unit == id && c.path == cx.file.path) then
    throw (.failed "first call")
  let _ ← s.reads.mapM fun name => cx.read name Fact.number?
  if s.parses then
    let _ ← cx.parsed

/-- The fact of a scripted unit. -/
def factOf (requires : List String) (cx : UnitContext) : ScriptedFact → Except UnitError Fact
  | .constant n => .ok (.number n)
  | .text t => .ok (.text t)
  | .itemCount => do return .number (← cx.parsed).items.length
  | .successor => do
    let numbers ← requires.mapM fun name => cx.read name Fact.number?
    return .number (numbers.foldl (· + ·) 1)

/-- A unit with a script. -/
def analysis (s : Script) (id doc : String) (requires : List String) (fact : ScriptedFact) :
    AnalysisUnit where
  id := id
  doc := doc
  requires := requires
  rule := none
  run := fun cx => do
    s.play id cx
    factOf requires cx fact

/-- What a scripted rule reports. -/
structure Reports where
  /-- Findings at given positions. -/
  always : List (Position × String) := []
  /-- The message on every schema literal. -/
  onSchema : Option String := none
  /-- The message on every setter call. -/
  onSetter : Option String := none
deriving Repr

/-- The findings of a scripted rule. -/
def findings (info : RuleInfo) (reports : Reports) (cx : UnitContext) :
    Except UnitError (List Diagnostic) := do
  let s ← cx.read Index.suppressionsId Fact.suppressions?
  let always := reports.always.map fun (place, message) => info.finding cx.file place message none
  let onSchema ← match reports.onSchema with
    | none => pure []
    | some message => do
      let literals ← cx.read Index.schemaLiteralsId Fact.schemaLiterals?
      pure <| (literals.filter fun l => !info.isSilenced s l.anchorLine).map fun l =>
        info.finding cx.file l.reportPosition message (some "scripted")
  let onSetter ← match reports.onSetter with
    | none => pure []
    | some message => do
      let calls ← cx.read Index.setterCallsId Fact.setterCalls?
      pure <| (calls.filter fun c => !info.isSilenced s c.anchorLine).map fun c =>
        info.finding cx.file c.methodPosition message none
  return always ++ onSchema ++ onSetter

/-- A rule with a script. -/
def rule (s : Script) (info : RuleInfo) (requires : List String) (reports : Reports) :
    AnalysisUnit :=
  info.unit requires fun cx => do
    s.play info.name cx
    findings info reports cx

end Script

/-- What a scripted rule asks of a schema literal. -/
inductive Condition
  /-- A field is true. -/
  | isTrue (name : String)
  /-- A field is not true. -/
  | isNotTrue (name : String)
  /-- A field is set. -/
  | has (name : String)
  /-- A field is not set. -/
  | lacks (name : String)
  /-- A field is set to an expression. -/
  | isExpression (name : String)
  /-- The declared type is a given one. -/
  | hasType (name : String)
  /-- The literal stands in a given field. -/
  | isEnclosedBy (name : String)
  /-- Other fields are filled from somewhere else. -/
  | hasRest
deriving DecidableEq, Repr

/-- Whether a literal meets a condition. -/
def Condition.holds (l : SchemaLiteral) : Condition → Bool
  | .isTrue name => l.isSetTrue name
  | .isNotTrue name => !l.isSetTrue name
  | .has name => l.hasField name
  | .lacks name => !l.hasField name
  | .isExpression name => (l.expression? name).isSome
  | .hasType name => l.declaredType? == some name
  | .isEnclosedBy name => l.enclosingField == some name
  | .hasRest => l.hasRest

end SchemaLint
