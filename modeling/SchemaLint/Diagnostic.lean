import SchemaLint.FilePath
import SchemaLint.Position

/-!
# Findings and how they are written

* `Severity`: how serious a finding is.
* `Diagnostic`: one finding of a rule.
* `Diagnostic.display`, `Diagnostic.format`: its one-line and its long form.
* `Diagnostic.report`: what a graphical report shows of it.
-/

namespace SchemaLint

/-- How serious a finding is. -/
inductive Severity
  /-- Worth knowing. -/
  | info
  /-- Should be addressed. -/
  | warning
  /-- Must be fixed. -/
  | error
deriving DecidableEq, Repr, Inhabited

namespace Severity

/-- The name of a severity. -/
def name : Severity → String
  | .info => "info"
  | .warning => "warning"
  | .error => "error"

/-- The severity of a given name. -/
def ofName? : String → Option Severity
  | "info" => some .info
  | "warning" => some .warning
  | "error" => some .error
  | _ => none

/-- Rank of a severity, the least serious first. -/
def rank : Severity → Nat
  | .info => 0
  | .warning => 1
  | .error => 2

/-- A severity is read back from its name. -/
theorem ofName?_name (s : Severity) : ofName? s.name = some s := by
  cases s <;> rfl

end Severity

/-- Where a finding is. -/
structure Location where
  /-- File, relative to the analysed root. -/
  file : FilePath
  /-- Line, counted from one. -/
  line : Nat
  /-- Column in characters, counted from one. -/
  column : Nat
  /-- Byte offset in the file. -/
  offset : Nat
  /-- Length in bytes. -/
  length : Nat
deriving DecidableEq, Repr

/-- The location of a position in a file, its span not yet known. -/
def Location.ofPosition (file : FilePath) (p : Position) : Location :=
  ⟨file, p.line, p.column, 0, 0⟩

/-- One finding of a rule. -/
structure Diagnostic where
  /-- Code of the rule. -/
  code : String
  /-- Name of the rule. -/
  rule : String
  /-- How serious it is. -/
  severity : Severity
  /-- Where it is. -/
  location : Location
  /-- What is wrong. -/
  message : String
  /-- How to mend it. -/
  suggestion : Option String
deriving DecidableEq, Repr

namespace Diagnostic

/-- File, line and column of a finding. -/
def place (d : Diagnostic) : String :=
  d.location.file.text ++ ":" ++ toString d.location.line ++ ":" ++ toString d.location.column

/-- One-line form of a finding. -/
def display (d : Diagnostic) : String :=
  d.place ++ ": " ++ d.severity.name ++ " [" ++ d.code ++ "] " ++ d.message

/-- Long form of a finding. -/
def format (d : Diagnostic) : String :=
  d.code ++ " " ++ d.rule ++ " at " ++ d.place ++ "\n" ++
    "  " ++ d.severity.name ++ ": " ++ d.message ++ "\n" ++
    match d.suggestion with
    | some help => "  = help: " ++ help ++ "\n"
    | none => ""

/-- What a graphical report shows of a finding. -/
structure Report where
  /-- Headline. -/
  message : String
  /-- Advice below the source excerpt. -/
  help : Option String
  /-- Text at the marked span. -/
  label : String
  /-- Byte offset of the span. -/
  offset : Nat
  /-- Length of the span in bytes. -/
  length : Nat
deriving DecidableEq, Repr

/-- The graphical report of a finding. -/
def report (d : Diagnostic) : Report where
  message := "[" ++ d.code ++ "] " ++ d.message
  help := d.suggestion
  label := d.rule
  offset := d.location.offset
  length := d.location.length

end Diagnostic

end SchemaLint
