import SchemaLint.Code.Forest
import SchemaLint.Code.Grammar.Item

/-!
# The grammar

The productions of all nonterminals, and the parsers they give.  A parser for a nonterminal uses
the others only after it took a token or descended towards one, so the depth of the recursion is
bounded by the number of tokens.

* `production`: one step of the recursion.
* `grammar`: the parsers of all nonterminals, up to a depth.
* `parseFile?`, `parsePath?`: the entry points.
-/

namespace SchemaLint.Code

/-- The parser of a nonterminal given the parsers of all of them. -/
def production (rules : Rules) : Rules
  | .expr records => exprGoal rules records
  | .unary records => unaryGoal rules records
  | .climb lhs records base => climbGoal rules lhs records base
  | .leading => leadingGoal rules
  | .type plus => typeGoal rules plus
  | .pattern => patternGoal rules
  | .alternatives => alternativesGoal rules
  | .block => blockGoal rules
  | .body => bodyGoal rules
  | .item => itemGoal rules

/-- The parsers of all nonterminals, to a given depth of recursion. -/
def grammar : Nat → Rules
  | 0 => fun _ => failure
  | depth + 1 => production (grammar depth)

/-- A depth of recursion that no parse of the tokens exceeds. -/
def depthFor (ts : List Token) : Nat :=
  12 * Token.countAll ts + 24

/-- The code of a source file, if it can be parsed. -/
def parseFile? (source : String) : Option CodeFile := do
  let ts ← Forest.ofFile? source
  match (codeFile (grammar (depthFor ts))).run ts with
  | some (file, []) => some file
  | _ => none

/-- The names of a path written as a type, if the text is one. -/
def parsePath? (source : String) : Option PathName := do
  let ts ← Forest.ofStart? source.toList
  match (simplePath (grammar (depthFor ts)) false).run ts with
  | some (path, []) => some path.name
  | _ => none

end SchemaLint.Code
