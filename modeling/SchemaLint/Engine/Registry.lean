import SchemaLint.Engine.AnalysisUnit

/-!
# Registries

A registry holds units whose dependencies are known to exist.  Units are numbered in the order in
which they were registered.

* `Registry.build`: a registry of units, or what is wrong with them.
* `Registry.lookup`: the unit of a given id, rule name or rule code.
-/

namespace SchemaLint

/-- A registered unit. -/
structure Entry where
  /-- The unit. -/
  unit : AnalysisUnit
  /-- The numbers of the units it depends on, in the declared order. -/
  requires : List Nat

/-- Registered units, numbered from zero. -/
structure Registry where
  /-- The units in the order of registration. -/
  entries : List Entry

namespace Registry

/-! ## Building -/

/-- The first id or code that occurs again, given the ids and codes seen before. -/
def findDuplicate? (ids codes : List String) : List AnalysisUnit → Option String
  | [] => none
  | u :: rest =>
    if ids.contains u.id then some u.id
    else
      match u.rule with
      | none => findDuplicate? (u.id :: ids) codes rest
      | some info =>
        if codes.contains info.code then some info.code
        else findDuplicate? (u.id :: ids) (info.code :: codes) rest

/-- The number of a unit by its id. -/
def numberOf? (units : List AnalysisUnit) (id : String) : Option Nat :=
  units.findIdx? fun u => u.id == id

/-- The number of a dependency of a unit with a given number. -/
def dependency (units : List AnalysisUnit) (number : Nat) (u : AnalysisUnit) (id : String) :
    Except ConfigurationError Nat :=
  match numberOf? units id with
  | none => .error (.unknownDependency u.id id)
  | some n =>
    if u.rule.isSome && number ≤ n then .error (.forwardReference u.id id) else .ok n

/-- The entries of units that are numbered from a given number on. -/
def entriesFrom (units : List AnalysisUnit) : Nat → List AnalysisUnit →
    Except ConfigurationError (List Entry)
  | _, [] => .ok []
  | number, u :: rest => do
    let requires ← u.requires.mapM (dependency units number u)
    let entries ← entriesFrom units (number + 1) rest
    return ⟨u, requires⟩ :: entries

/-- The registry of the given units.  Repeated ids and codes are found before anything else is
checked. -/
def build (units : List AnalysisUnit) : Except ConfigurationError Registry :=
  match findDuplicate? [] [] units with
  | some id => .error (.duplicateUnit id)
  | none => (entriesFrom units 0 units).map Registry.mk

/-! ## Reading -/

/-- Number of units. -/
def size (r : Registry) : Nat :=
  r.entries.length

/-- The unit of a given id, or else the rule of a given code. -/
def lookup (r : Registry) (id : String) : Option Nat :=
  (r.entries.findIdx? fun e => e.unit.id == id).or
    (r.entries.findIdx? fun e => e.unit.rule.any fun info => info.code == id)

/-- The id of a unit. -/
def idOf (r : Registry) (number : Nat) : String :=
  match r.entries[number]? with
  | some e => e.unit.id
  | none => ""

/-- The units that a unit depends on. -/
def requiresOf (r : Registry) (number : Nat) : List Nat :=
  match r.entries[number]? with
  | some e => e.requires
  | none => []

/-- The rules in the order of registration. -/
def rules (r : Registry) : List RuleInfo :=
  r.entries.filterMap fun e => e.unit.rule

/-- The rule of a given name or code. -/
def rule? (r : Registry) (nameOrCode : String) : Option RuleInfo :=
  (r.lookup nameOrCode).bind fun n => r.entries[n]?.bind fun e => e.unit.rule

end Registry

end SchemaLint
