import SchemaLint.Cli.CommandLine
import SchemaLint.LintResult.Encoding

/-!
# How results are written

* `LintResult.render`: a result in one of the formats, as what goes to either output.
* `LintResult.summary`: the numbers of findings in one line.
-/

namespace SchemaLint

/-- Text for the two outputs of a program. -/
structure Printed where
  /-- Text for the main output. -/
  output : String := ""
  /-- Text for the output of messages. -/
  messages : String := ""
deriving DecidableEq, Repr

/-- A text as a line of its own. -/
def asLine (s : String) : String :=
  s ++ "\n"

/-- Texts as lines. -/
def asLines (ls : List String) : String :=
  String.join (ls.map asLine)

/-- A report of a finding for a reader at a terminal. -/
def Diagnostic.Report.lines (r : Diagnostic.Report) (place : String) : List String :=
  let help := match r.help with
    | some advice => ["  help: " ++ advice]
    | none => []
  ["  × " ++ r.message, "   at " ++ place ++ " (" ++ r.label ++ ")"] ++ help ++ [""]

namespace LintResult

/-- The numbers of findings and of files. -/
def summary (r : LintResult) : String :=
  "Found " ++ toString (r.count .error) ++ " error(s), " ++ toString (r.count .warning) ++
    " warning(s), " ++ toString (r.count .info) ++ " info(s) in " ++ toString r.filesChecked ++
    " file(s)"

/-- The lines on failures; units that were not run because of another failure are left out. -/
def failureLines (r : LintResult) : List String :=
  (r.failures.filter fun f => !f.error.isSkip).map UnitFailure.display

/-- The start of a stretch of coloured text: red on errors and failures, yellow on warnings,
green otherwise. -/
def colour (r : LintResult) : String :=
  if r.count .error > 0 || r.hasFailures then "\x1b[31m"
  else if r.count .warning > 0 then "\x1b[33m"
  else "\x1b[32m"

/-- Several lines a finding, the failures and a coloured summary. -/
def renderText (r : LintResult) : String :=
  asLines (r.diagnostics.map Diagnostic.format) ++ asLines r.failureLines ++
    asLine (r.colour ++ r.summary ++ "\x1b[0m")

/-- One line a finding and a failure. -/
def renderCompact (r : LintResult) : String :=
  asLines (r.diagnostics.map Diagnostic.display) ++ asLines r.failureLines

/-- A report a finding, the failures and a summary. -/
def renderFancy (r : LintResult) : String :=
  asLines (r.diagnostics.flatMap fun d => d.report.lines d.place) ++ asLines r.failureLines ++
    asLine r.summary

/-- A result in a format. -/
def render (r : LintResult) : OutputFormat → Printed
  | .text => { output := r.renderText }
  | .compact => { output := r.renderCompact }
  | .json => { output := asLine r.toJson.pretty }
  | .fancy => { messages := r.renderFancy }

end LintResult

end SchemaLint
