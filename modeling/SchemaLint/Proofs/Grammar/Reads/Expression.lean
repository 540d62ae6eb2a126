import Mathlib
import SchemaLint.Proofs.Grammar.Reads.Type

/-!
# The source of patterns, expressions and statements

* `reads_patternGoal`, `reads_alternativesGoal`: where a pattern begins.
* `takes_exprGoal`, `takes_unaryGoal`, `extends_climbGoal`, `reads_leadingGoal`: where an expression
  begins and what is inside it.
* `takes_blockGoal`, `takes_bodyGoal`: what is inside a block.
-/

set_option mvcgen.warning false

namespace SchemaLint.Code

open SchemaLint.Code.Parser Std.Do

section

variable [Source]

/-! ## Patterns -/

/-- The name of an element may be written otherwise than it stands there. -/
@[spec high] theorem takes_member (before : List Token) :
    Takes (fun _ => True) before member := by
  unfold member
  mvcgen <;> grind -linarith

/-- Three dots are not kept as they stand. -/
@[spec high] theorem takes_rangeMark (obsolete : Bool) (before : List Token) :
    Takes (fun r : List Token × Bool => !obsolete → Begins r.1) before (rangeMark obsolete) := by
  unfold rangeMark
  mvcgen <;> grind -linarith

variable {rules : Rules} (hr : ∀ goal before, Serves goal before (rules goal))

include hr

/-- The bound of a range pattern keeps to the source. -/
@[spec high] theorem reads_rangeBound (before : List Token) :
    Reads (fun o : Option Node => grounded o ∧ ∀ n ∈ o, Begins n.shown) before
      (rangeBound rules) := by
  unfold rangeBound
  mvcgen [hr] <;> grind -linarith

/-- A range pattern keeps to the source if what it is given does. -/
@[spec high] theorem extends_rangePattern (start : List Node) (before : List Token) :
    Extends (Node.GroundedAll start ∧ Begins (Node.shownAll start)) grounded before
      (rangePattern rules start) := by
  unfold rangePattern
  mvcgen [hr]
  grind -linarith

/-- A field of a record pattern keeps to the source. -/
@[spec high] theorem reads_fieldPattern (before : List Token) :
    Reads grounded before (fieldPattern rules) := by
  unfold fieldPattern
  mvcgen [hr] <;> grind -linarith

/-- The fields of a record pattern, up to a bound on their number, keep to the source. -/
@[spec high] theorem reads_recordPatternGo (bound : Nat) (before : List Token) :
    Reads grounded before (recordPattern.go rules bound) := by
  induction bound generalizing before with
  | zero =>
      unfold recordPattern.go
      mvcgen
  | succ bound ih =>
      unfold recordPattern.go
      mvcgen [hr, ih, -draws_recordPatternGo] <;> grind -linarith

/-- A record pattern keeps to the source. -/
@[spec high] theorem reads_recordPattern (before : List Token) :
    Reads grounded before (recordPattern rules) := by
  unfold recordPattern
  mvcgen [hr]

/-- A pattern that begins with a path keeps to the source. -/
@[spec high] theorem reads_pathPattern (before : List Token) :
    Reads grounded before (pathPattern rules) := by
  unfold pathPattern
  mvcgen [hr] <;> grind -linarith

/-- A pattern that binds a name keeps to the source. -/
@[spec high] theorem reads_binderPattern (before : List Token) :
    Reads grounded before (binderPattern rules) := by
  unfold binderPattern
  mvcgen [hr] <;> simp only [grounded_parsed, Node.Grounded, Node.shown] <;> grind -linarith

/-- A parenthesised or tuple pattern keeps to the source. -/
@[spec high] theorem reads_parenPattern (before : List Token) :
    Reads grounded before (parenPattern rules) := by
  unfold parenPattern
  mvcgen [hr] <;> grind -linarith

/-- A pattern keeps to the source. -/
theorem reads_patternGoal (before : List Token) :
    Reads grounded before (patternGoal rules) := by
  unfold patternGoal
  mvcgen [hr] <;> grind -linarith

/-- A pattern with alternatives keeps to the source. -/
theorem reads_alternativesGoal (before : List Token) :
    Reads grounded before (alternativesGoal rules) := by
  unfold alternativesGoal
  mvcgen [hr] <;> grind -linarith

/-! ## Operators -/

/-- A right operand keeps to the source if what was read of it before does. -/
@[spec high] theorem extends_extendOperand (records : Bool) (p : Precedence) (bound : Nat)
    (rhs : Parsed) (before : List Token) :
    Extends (grounded rhs) grounded before (extendOperand rules records p bound rhs) := by
  induction bound generalizing rhs before with
  | zero =>
      unfold extendOperand
      mvcgen
      grind -linarith
  | succ bound ih =>
      unfold extendOperand
      mvcgen [hr, ih, -draws_extendOperand] <;> grind -linarith

/-- The right operand of an operator keeps to the source. -/
@[spec high] theorem reads_rightOperand (records : Bool) (p : Precedence) (before : List Token) :
    Reads grounded before (rightOperand rules records p) := by
  unfold rightOperand
  mvcgen [hr]
  grind -linarith

/-- The dots and the end of a range expression begin with a token and keep to the source. -/
@[spec high] theorem takes_rangeTail (records : Bool) (before : List Token) :
    Takes (fun ns : List Node => Node.GroundedAll ns ∧ Begins (Node.shownAll ns)) before
      (rangeTail rules records) := by
  unfold rangeTail
  mvcgen [hr] <;> grind -linarith

/-- An expression with the operators after its left operand keeps to the source if what it is given
does. -/
theorem extends_climbGoal (lhs : Parsed) (records : Bool) (base : Precedence)
    (before : List Token) :
    Extends (grounded lhs) grounded before (climbGoal rules lhs records base) := by
  unfold climbGoal
  mvcgen [hr] <;> grind -linarith

/-- An expression begins with a token and keeps to the source. -/
theorem takes_exprGoal (records : Bool) (before : List Token) :
    Takes grounded before (exprGoal rules records) := by
  unfold exprGoal
  mvcgen [hr]
  grind -linarith

/-! ## Operands -/

omit hr in
/-- The fields of a record literal, up to a bound on their number, keep to the source. -/
@[spec high] theorem reads_recordFieldsGo {field : Parser Node}
    (hf : ∀ before, Reads grounded before field)
    (hr : ∀ goal before, Serves goal before (rules goal)) (bound : Nat)
    (after : Bool) (before : List Token) :
    Reads grounded before (recordFields.go rules field bound after) := by
  induction bound generalizing after before with
  | zero =>
      unfold recordFields.go
      mvcgen
  | succ bound ih =>
      unfold recordFields.go
      mvcgen [hr, hf, ih, -draws_recordFieldsGo] <;> grind -linarith

/-- The fields of a record literal and what fills the others keep to the source. -/
@[spec high] theorem reads_recordFields (before : List Token) :
    Reads grounded before (recordFields rules) := by
  unfold recordFields
  mvcgen [hr] <;> grind -linarith

/-- An expression that begins with a path begins with a token and keeps to the source. -/
@[spec high] theorem takes_pathExpression (records : Bool) (before : List Token) :
    Takes grounded before (pathExpression rules records) := by
  unfold pathExpression
  mvcgen [hr] <;> grind -linarith

/-- A parenthesised expression or a tuple begins with a token and keeps to the source. -/
@[spec high] theorem takes_parenExpression (before : List Token) :
    Takes grounded before (parenExpression rules) := by
  unfold parenExpression
  mvcgen [hr] <;> grind -linarith

/-- An array begins with a token and keeps to the source. -/
@[spec high] theorem takes_bracketExpression (before : List Token) :
    Takes grounded before (bracketExpression rules) := by
  unfold bracketExpression
  mvcgen [hr] <;> grind -linarith

/-- A parameter of a closure keeps to the source. -/
@[spec high] theorem reads_closureParam (before : List Token) :
    Reads grounded before (closureParam rules) := by
  unfold closureParam
  mvcgen [hr] <;> grind -linarith

/-- The parameters of a closure, up to a bound on their number, keep to the source. -/
@[spec high] theorem reads_closureParamsGo (bound : Nat) (before : List Token) :
    Reads grounded before (closureParams.go rules bound) := by
  induction bound generalizing before with
  | zero =>
      unfold closureParams.go
      mvcgen
  | succ bound ih =>
      unfold closureParams.go
      mvcgen [hr, ih, -draws_closureParamsGo] <;> grind -linarith

/-- The parameters of a closure keep to the source. -/
@[spec high] theorem reads_closureParams (before : List Token) :
    Reads grounded before (closureParams rules) := by
  unfold closureParams
  mvcgen [hr]

/-- A closure begins with a token and keeps to the source. -/
@[spec high] theorem takes_closureExpression (records : Bool) (before : List Token) :
    Takes grounded before (closureExpression rules records) := by
  unfold closureExpression
  mvcgen [hr] <;> grind -linarith

/-- A condition with its blocks begins with a token and keeps to the source. -/
@[spec high] theorem takes_ifExpression (bound : Nat) (before : List Token) :
    Takes (fun ns : List Node => Node.GroundedAll ns ∧ Begins (Node.shownAll ns)) before
      (ifExpression rules bound) := by
  induction bound generalizing before with
  | zero =>
      unfold ifExpression
      mvcgen
  | succ bound ih =>
      unfold ifExpression
      mvcgen [hr, ih, -draws_ifExpression] <;> grind -linarith

/-- An arm of a match keeps to the source. -/
@[spec high] theorem reads_matchArm (before : List Token) :
    Reads grounded before (matchArm rules) := by
  unfold matchArm
  mvcgen [hr] <;> grind -linarith

/-- A control expression begins with a token and keeps to the source. -/
@[spec high] theorem takes_controlExpression (before : List Token) :
    Takes grounded before (controlExpression rules) := by
  unfold controlExpression
  mvcgen [hr] <;> try simp only [grounded_parsed, Node.Grounded, Node.shown]
  all_goals grind -linarith

/-- A loop or block with a label begins with a token and keeps to the source. -/
@[spec high] theorem takes_labeledExpression (before : List Token) :
    Takes grounded before (labeledExpression rules) := by
  unfold labeledExpression
  mvcgen [hr]
  grind -linarith

/-- A jump with the value it may carry begins with a token and keeps to the source. -/
@[spec high] theorem takes_jumpExpression (records : Bool) (before : List Token) :
    Takes grounded before (jumpExpression rules records) := by
  unfold jumpExpression
  mvcgen [hr] <;> simp only [grounded_parsed, Node.Grounded, Node.shown] <;> grind -linarith

/-- An expression without operators begins with a token and keeps to the source. -/
@[spec high] theorem takes_atom (records : Bool) (before : List Token) :
    Takes grounded before (atom rules records) := by
  unfold atom
  mvcgen [hr] <;> grind -linarith

/-- What follows a dot after an operand keeps to the source if what it is given does. -/
@[spec high] theorem extends_afterDot (e : Parsed) (dot before : List Token) :
    Extends (grounded e) grounded before (afterDot rules e dot) := by
  unfold afterDot
  mvcgen [hr] <;> grind -linarith

/-- The accesses and calls after an expression keep to the source if what they are given does. -/
@[spec high] theorem extends_trailers (bound : Nat) (e : Parsed) (before : List Token) :
    Extends (grounded e) grounded before (trailers rules bound e) := by
  induction bound generalizing e before with
  | zero =>
      unfold trailers
      mvcgen
      grind -linarith
  | succ bound ih =>
      unfold trailers
      mvcgen [hr, ih, -draws_trailers] <;> grind -linarith

/-- An operand with its unary operators begins with a token and keeps to the source. -/
theorem takes_unaryGoal (records : Bool) (before : List Token) :
    Takes grounded before (unaryGoal rules records) := by
  unfold unaryGoal
  mvcgen [hr] <;> grind -linarith

/-- An expression at the start of a statement keeps to the source. -/
theorem reads_leadingGoal (before : List Token) :
    Reads grounded before (leadingGoal rules) := by
  unfold leadingGoal
  mvcgen [hr] <;> grind -linarith

/-! ## Statements -/

/-- A let statement keeps to the source if what it is given does. -/
@[spec high] theorem extends_letStatement (attributes : List Node) (before : List Token) :
    Extends (Node.GroundedAll attributes) grounded before (letStatement rules attributes) := by
  unfold letStatement
  mvcgen [hr] <;> grind -linarith

omit hr in
/-- The path of a macro call that is a statement is read ahead. -/
@[grind →] theorem grounded_of_macroStart {ts rest : List Token} {path : List Node}
    (h : macroStart ts = .statement path rest) (hts : Token.GroundedAll ts) :
    Node.GroundedAll path ∧ Begins (Node.shownAll path) ∧ Token.GroundedAll rest ∧
      rest <:+ ts := by
  unfold macroStart at h
  split at h
  · cases h
  · rename_i hrun
    have hpath := run_of_triple (takes_plainPath ts) hrun rfl hts
    grind -linarith

/-- A statement keeps to the source. -/
@[spec high] theorem reads_statement (before : List Token) :
    Reads grounded before (statement rules) := by
  unfold statement
  mvcgen [hr] <;> grind -linarith

/-- The statements of a block keep to the source. -/
@[spec high] theorem reads_statements (before : List Token) :
    Reads grounded before (statements rules) := by
  unfold statements
  mvcgen [hr] <;> grind -linarith

/-- A block begins with a token and keeps to the source. -/
theorem takes_blockGoal (before : List Token) : Takes grounded before (blockGoal rules) := by
  unfold blockGoal
  mvcgen [hr]
  grind -linarith

/-- A body with its inner attributes begins with a token and keeps to the source. -/
theorem takes_bodyGoal (before : List Token) : Takes grounded before (bodyGoal rules) := by
  unfold bodyGoal
  mvcgen [hr] <;> grind -linarith

end

end SchemaLint.Code
