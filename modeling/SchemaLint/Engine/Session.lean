import SchemaLint.Engine.Plan
import SchemaLint.Sink

/-!
# Sessions

A session runs the units of a plan on files.  The outcome of a unit on a file is computed at most
once and then kept.  A unit is not run on a file if a unit it depends on failed there.

* `EngineState`: the outcomes and the calls so far.
* `Session.resolve`: the outcome of a unit on a file.
* `Session.run`: the outcomes, findings and failures of a request.
* `Session.fact?`, `Session.resolveLater`: outcomes after a run.
-/

namespace SchemaLint

/-- What came of a unit on a file. -/
abbrev Outcome := Except UnitError Fact

/-- The outcomes and the calls so far. -/
structure EngineState where
  /-- The outcomes by unit and number of the file, the latest first. -/
  outcomes : List ((Nat × Nat) × Outcome)
  /-- The calls of units, the latest first. -/
  calls : List UnitCall

namespace EngineState

/-- A state without outcomes, after some calls. -/
def after (calls : List UnitCall) : EngineState := ⟨[], calls⟩

/-- The outcome of a unit on a file, if it is there. -/
def outcome? (s : EngineState) (unit file : Nat) : Option Outcome :=
  s.outcomes.lookup (unit, file)

/-- A state with one more outcome. -/
def keep (s : EngineState) (unit file : Nat) (o : Outcome) : EngineState :=
  { s with outcomes := ((unit, file), o) :: s.outcomes }

/-- A state with one more call. -/
def log (s : EngineState) (call : UnitCall) : EngineState :=
  { s with calls := call :: s.calls }

end EngineState

/-- A registry and what its units are run with. -/
structure Session where
  /-- The units. -/
  registry : Registry
  /-- The settings. -/
  settings : Settings
  /-- Where and why the parser of code gives up on a text that is not valid code, as far as that is
  known.  Which texts these are is decided here; where the parser stops on one of them, and what it
  says then, is its own. -/
  faultOf : String → Option SyntaxFault := fun _ => none

namespace Session

/-- A session, unless the settings make no sense. -/
def of (registry : Registry) (settings : Settings) : Except ConfigurationError Session :=
  settings.validate.map fun settings => { registry, settings }

/-! ## Outcomes -/

/-- The facts of some units, each with its id; or the id of the first that failed, after which no
further one is looked at. -/
def gather (s : Session) (resolve : Nat → EngineState → Outcome × EngineState) :
    List Nat → EngineState → Except String (List (String × Fact)) × EngineState
  | [], state => (.ok [], state)
  | n :: rest, state =>
    match resolve n state with
    | (.error _, state) => (.error (s.registry.idOf n), state)
    | (.ok fact, state) =>
      match s.gather resolve rest state with
      | (.error id, state) => (.error id, state)
      | (.ok facts, state) => (.ok ((s.registry.idOf n, fact) :: facts), state)

/-- What a unit is given on a file. -/
def context (s : Session) (file : SourceFile) (code : Option Code.CodeFile)
    (facts : List (String × Fact)) (earlier : List UnitCall) : UnitContext :=
  ⟨file, s.settings, code, s.faultOf file.content, facts, earlier⟩

section

variable (s : Session) (file : SourceFile) (code : Option Code.CodeFile)
  (facts : List (String × Fact)) (earlier : List UnitCall)

@[simp] theorem context_file : (s.context file code facts earlier).file = file := rfl

@[simp] theorem context_settings : (s.context file code facts earlier).settings = s.settings := rfl

@[simp] theorem context_code : (s.context file code facts earlier).code = code := rfl

@[simp] theorem context_fault :
    (s.context file code facts earlier).fault = s.faultOf file.content := rfl

@[simp] theorem context_facts : (s.context file code facts earlier).facts = facts := rfl

end

/-- The outcome of running a unit on a file with the given facts. -/
def call (s : Session) (file : SourceFile) (code : Option Code.CodeFile) (u : AnalysisUnit)
    (facts : List (String × Fact)) (state : EngineState) : Outcome × EngineState :=
  let outcome := u.run (s.context file code facts state.calls)
  (outcome, state.log ⟨u.id, file.id, file.path⟩)

/-- The outcome of a unit on a file: the one that is kept, or else the one that its dependencies
and its own run give.  The depth bounds the length of chains of dependencies. -/
def resolve (s : Session) (file : SourceFile) (code : Option Code.CodeFile) :
    Nat → Nat → EngineState → Outcome × EngineState
  | 0, n, state => (.error (.undeclared (s.registry.idOf n)), state)
  | depth + 1, n, state =>
    match state.outcome? n file.id with
    | some outcome => (outcome, state)
    | none =>
      match s.registry.entries[n]? with
      | none => (.error (.undeclared (s.registry.idOf n)), state)
      | some entry =>
        match s.gather (s.resolve file code depth) entry.requires state with
        | (.error id, state) =>
          let outcome := .error (.dependencyFailed id)
          (outcome, state.keep n file.id outcome)
        | (.ok facts, state) =>
          let (outcome, state) := s.call file code entry.unit facts state
          (outcome, state.keep n file.id outcome)

/-- A depth that no chain of dependencies of a plan exceeds. -/
def depth (s : Session) : Nat :=
  s.registry.size

/-! ## Runs -/

/-- The outcomes of units on a file, in order. -/
def runUnits (s : Session) (file : SourceFile) (code : Option Code.CodeFile) :
    List Nat → EngineState → List (Nat × Outcome) × EngineState
  | [], state => ([], state)
  | n :: rest, state =>
    let (outcome, state) := s.resolve file code s.depth n state
    let (outcomes, state) := s.runUnits file code rest state
    ((n, outcome) :: outcomes, state)

/-- The outcomes of the units of a plan on each of some files. -/
def runFiles (s : Session) (plan : Plan) :
    List SourceFile → EngineState → List (SourceFile × List (Nat × Outcome)) × EngineState
  | [], state => ([], state)
  | file :: rest, state =>
    let (outcomes, state) := s.runUnits file file.parse? plan.order state
    let (others, state) := s.runFiles plan rest state
    ((file, outcomes) :: others, state)

/-- The findings of a requested unit. -/
def findingsOf (plan : Plan) : Nat × Outcome → List Diagnostic
  | (n, .ok fact) => if plan.requested.contains n then fact.findings?.getD [] else []
  | (_, .error _) => []

/-- The failure that an outcome is, if it is one. -/
def failureOf? (s : Session) (file : SourceFile) : Nat × Outcome → Option UnitFailure
  | (_, .ok _) => none
  | (n, .error e) => some ⟨s.registry.idOf n, file.relativePath, e⟩

/-- Failures in order; those of one unit on one path stay as they come. -/
def sortFailures (fs : List UnitFailure) : List UnitFailure :=
  fs.mergeSort fun a b => a.compare b != .gt

end Session

/-- What came of a run. -/
structure Run where
  /-- The outcomes that can still be asked for, and the calls. -/
  state : EngineState
  /-- The findings of the requested units, in order. -/
  diagnostics : List Diagnostic
  /-- The failures, by file and unit. -/
  failures : List UnitFailure

namespace Session

/-- The run of a request on some files, after some calls of earlier runs. -/
def run (s : Session) (request : List String) (files : List SourceFile)
    (calls : List UnitCall) : Except ConfigurationError Run := do
  let plan ← Plan.of s.registry request
  let (perFile, state) := s.runFiles plan files (.after calls)
  let sink := perFile.foldl
    (fun sink (_, outcomes) => sink.collect (outcomes.flatMap (findingsOf plan))) Sink.empty
  let failures := perFile.flatMap fun (file, outcomes) => outcomes.filterMap (s.failureOf? file)
  return ⟨state, sink.toList, sortFailures failures⟩

/-- The outcome of a unit on a file of a run, if the run has come to it. -/
def fact? (s : Session) (state : EngineState) (unit : String) (file : Nat) : Option Outcome :=
  (s.registry.lookup unit).bind fun n => state.outcome? n file

/-- The outcome of a unit on any file after a run, computed if it is not there. -/
def resolveLater (s : Session) (unit : String) (file : SourceFile) (state : EngineState) :
    Except ConfigurationError (Outcome × EngineState) := do
  let _ ← Plan.of s.registry [unit]
  let n ← Plan.find s.registry unit
  return s.resolve file file.parse? s.depth n state

end Session

end SchemaLint
