import Mathlib
import SchemaLint.Proofs.Grammar.Type

/-!
# Counting in patterns, expressions and statements

* `draws_patternGoal`, `draws_alternativesGoal`: what is counted in a pattern.
* `draws_exprGoal`, `draws_unaryGoal`, `draws_climbGoal`, `draws_leadingGoal`: what is counted in an
  expression.
* `draws_blockGoal`, `draws_bodyGoal`: what is counted in a block.
-/

set_option mvcgen.warning false

namespace SchemaLint.Code

open SchemaLint.Code.Parser Std.Do

section

variable [Tally]

/-! ## Patterns -/

/-- The name of a field is not that of a record, so it does not count. -/
@[spec] theorem member_triple (n : Nat) :
    ⦃fun ts => ⌜weight ts ≤ n⌝⦄ member ⦃⇓? _ ts => ⌜weight ts ≤ n⌝⦄ := by
  mvcgen [member] <;> grind -linarith

/-- Three dots that stand for two and an equals sign count the same. -/
@[spec] theorem draws_rangeMark (obsolete : Bool) (n : Nat) : Draws 0 n (rangeMark obsolete) := by
  have hmade : ∀ p, Token.namesAll (Token.ofOperator p ['.', '.', '=']) =
      "...".length * Tally.other := fun p => Token.namesAll_ofOperator p _
  mvcgen [rangeMark, op_triple, -draws_op] <;> grind -linarith

variable {rules : Rules} (hr : ∀ goal n, Draws goal.owed n (rules goal))

include hr

/-- The bound of a range pattern draws from the tokens it takes. -/
@[spec] theorem draws_rangeBound (n : Nat) : Draws 0 n (rangeBound rules) := by
  mvcgen [rangeBound, hr] <;> grind -linarith

/-- A range pattern draws from the tokens it takes and from what it is given. -/
@[spec] theorem draws_rangePattern (start : List Node) (n : Nat) :
    Draws (weight start) n (rangePattern rules start) := by
  mvcgen [rangePattern, hr]
  grind -linarith

/-- A field of a record pattern draws from the tokens it takes. -/
@[spec] theorem draws_fieldPattern (n : Nat) : Draws 0 n (fieldPattern rules) := by
  mvcgen [fieldPattern, hr] <;> grind -linarith

/-- The fields of a record pattern, up to a bound on their number, draw from the tokens they take.
-/
@[spec] theorem draws_recordPatternGo (bound n : Nat) :
    Draws 0 n (recordPattern.go rules bound) := by
  induction bound generalizing n with
  | zero => mvcgen [recordPattern.go]
  | succ bound ih => mvcgen [recordPattern.go, hr, ih] <;> grind -linarith

/-- A record pattern draws from the tokens it takes. -/
@[spec] theorem draws_recordPattern (n : Nat) : Draws 0 n (recordPattern rules) := by
  mvcgen [recordPattern, hr]

/-- A pattern that begins with a path draws from the tokens it takes. -/
@[spec] theorem draws_pathPattern [Tally.Fits rules] (n : Nat) : Draws 0 n (pathPattern rules) := by
  mvcgen [pathPattern, hr] <;> grind -linarith

/-- A pattern that binds a name draws from the tokens it takes. -/
@[spec] theorem draws_binderPattern (n : Nat) : Draws 0 n (binderPattern rules) := by
  mvcgen [binderPattern, hr] <;> grind -linarith

/-- A parenthesised or tuple pattern draws from the tokens it takes. -/
@[spec] theorem draws_parenPattern (n : Nat) : Draws 0 n (parenPattern rules) := by
  mvcgen [parenPattern, hr]
  -- a single element without a comma stands for itself
  case vc3 | vc4 =>
    have hone := congrArg weight ‹(_ : List Parsed) = [_]›
    grind -linarith
  all_goals grind -linarith

/-- A pattern draws from the tokens it takes. -/
theorem draws_patternGoal [Tally.Fits rules] (n : Nat) : Draws 0 n (patternGoal rules) := by
  mvcgen [patternGoal, hr] <;> grind -linarith

/-- A pattern with alternatives draws from the tokens it takes. -/
theorem draws_alternativesGoal (n : Nat) : Draws 0 n (alternativesGoal rules) := by
  mvcgen [alternativesGoal, hr] <;> grind -linarith

/-! ## Operators -/

/-- A right operand draws from the tokens it takes and from what was read of it before. -/
@[spec] theorem draws_extendOperand (records : Bool) (p : Precedence) (bound : Nat) (rhs : Parsed)
    (n : Nat) : Draws (weight rhs) n (extendOperand rules records p bound rhs) := by
  induction bound generalizing rhs n with
  | zero => mvcgen [extendOperand]
  | succ bound ih => mvcgen [extendOperand, hr, ih] <;> grind -linarith

/-- The right operand of an operator draws from the tokens it takes. -/
@[spec] theorem draws_rightOperand (records : Bool) (p : Precedence) (n : Nat) :
    Draws 0 n (rightOperand rules records p) := by
  mvcgen [rightOperand, hr]
  grind -linarith

/-- The dots and the end of a range expression draw from the tokens they take. -/
@[spec] theorem draws_rangeTail (records : Bool) (n : Nat) :
    Draws 0 n (rangeTail rules records) := by
  mvcgen [rangeTail, hr] <;> grind -linarith

/-- An expression with the operators after its left operand draws from the tokens it takes and from
what it is given. -/
theorem draws_climbGoal (lhs : Parsed) (records : Bool) (base : Precedence) (n : Nat) :
    Draws (weight lhs) n (climbGoal rules lhs records base) := by
  mvcgen [climbGoal, hr] <;> grind -linarith

/-- An expression draws from the tokens it takes. -/
theorem draws_exprGoal (records : Bool) (n : Nat) : Draws 0 n (exprGoal rules records) := by
  mvcgen [exprGoal, hr]
  grind -linarith

/-! ## Operands -/

omit hr in
/-- The fields of a record literal, up to a bound on their number, draw from the tokens they take.
-/
@[spec] theorem draws_recordFieldsGo {field : Parser Node} (hf : ∀ n, Draws 0 n field)
    (hr : ∀ goal n, Draws goal.owed n (rules goal)) (bound : Nat) (after : Bool) (n : Nat) :
    Draws 0 n (recordFields.go rules field bound after) := by
  induction bound generalizing after n with
  | zero => mvcgen [recordFields.go]
  | succ bound ih => mvcgen [recordFields.go, hr, hf, ih] <;> grind -linarith

/-- The fields of a record literal and what fills the others draw from the tokens they take. -/
@[spec] theorem draws_recordFields (n : Nat) : Draws 0 n (recordFields rules) := by
  mvcgen [recordFields, hr] <;> grind -linarith

/-- An expression that begins with a path draws from the tokens it takes. -/
@[spec] theorem draws_pathExpression [Tally.Fits rules] (records : Bool) (n : Nat) :
    Draws 0 n (pathExpression rules records) := by
  mvcgen [pathExpression, hr] <;> grind -linarith

/-- A parenthesised expression or a tuple draws from the tokens it takes. -/
@[spec] theorem draws_parenExpression (n : Nat) : Draws 0 n (parenExpression rules) := by
  mvcgen [parenExpression, hr]
  -- a single element without a comma stands for itself
  case vc3 =>
    have hone := congrArg weight ‹(_ : List Parsed) = [_]›
    grind -linarith
  all_goals grind -linarith

/-- An array draws from the tokens it takes. -/
@[spec] theorem draws_bracketExpression (n : Nat) : Draws 0 n (bracketExpression rules) := by
  mvcgen [bracketExpression, hr] <;> grind -linarith

/-- A parameter of a closure draws from the tokens it takes. -/
@[spec] theorem draws_closureParam (n : Nat) : Draws 0 n (closureParam rules) := by
  mvcgen [closureParam, hr] <;> grind -linarith

/-- The parameters of a closure, up to a bound on their number, draw from the tokens they take. -/
@[spec] theorem draws_closureParamsGo (bound n : Nat) :
    Draws 0 n (closureParams.go rules bound) := by
  induction bound generalizing n with
  | zero => mvcgen [closureParams.go]
  | succ bound ih => mvcgen [closureParams.go, hr, ih] <;> grind -linarith

/-- The parameters of a closure draw from the tokens they take. -/
@[spec] theorem draws_closureParams (n : Nat) : Draws 0 n (closureParams rules) := by
  mvcgen [closureParams, hr]

/-- A closure draws from the tokens it takes. -/
@[spec] theorem draws_closureExpression (records : Bool) (n : Nat) :
    Draws 0 n (closureExpression rules records) := by
  mvcgen [closureExpression, hr] <;> grind -linarith

/-- A condition with its blocks draws from the tokens it takes. -/
@[spec] theorem draws_ifExpression (bound n : Nat) : Draws 0 n (ifExpression rules bound) := by
  induction bound generalizing n with
  | zero => mvcgen [ifExpression]
  | succ bound ih => mvcgen [ifExpression, hr, ih] <;> grind -linarith

/-- An arm of a match draws from the tokens it takes. -/
@[spec] theorem draws_matchArm (n : Nat) : Draws 0 n (matchArm rules) := by
  mvcgen [matchArm, hr] <;> grind -linarith

/-- A control expression draws from the tokens it takes. -/
@[spec] theorem draws_controlExpression (n : Nat) : Draws 0 n (controlExpression rules) := by
  mvcgen [controlExpression, hr] <;> grind -linarith

/-- A loop or block with a label draws from the tokens it takes. -/
@[spec] theorem draws_labeledExpression (n : Nat) : Draws 0 n (labeledExpression rules) := by
  mvcgen [labeledExpression, hr]
  grind -linarith

/-- A jump with the value it may carry draws from the tokens it takes. -/
@[spec] theorem draws_jumpExpression (records : Bool) (n : Nat) :
    Draws 0 n (jumpExpression rules records) := by
  mvcgen [jumpExpression, hr] <;> grind -linarith

/-- An expression without operators draws from the tokens it takes. -/
@[spec] theorem draws_atom [Tally.Fits rules] (records : Bool) (n : Nat) :
    Draws 0 n (atom rules records) := by
  mvcgen [atom, hr] <;> grind -linarith

/-- What follows a dot after an operand draws from the tokens it takes and from what it is given. -/
@[spec] theorem draws_afterDot (e : Parsed) (dot : List Token) (n : Nat) :
    Draws (weight e) n (afterDot rules e dot) := by
  mvcgen [afterDot, hr] <;> grind -linarith

/-- The accesses and calls after an expression draw from the tokens they take and from what they are
given. -/
@[spec] theorem draws_trailers (bound : Nat) (e : Parsed) (n : Nat) :
    Draws (weight e) n (trailers rules bound e) := by
  induction bound generalizing e n with
  | zero => mvcgen [trailers]
  | succ bound ih => mvcgen [trailers, hr, ih] <;> grind -linarith

/-- An operand with its unary operators draws from the tokens it takes. -/
theorem draws_unaryGoal [Tally.Fits rules] (records : Bool) (n : Nat) :
    Draws 0 n (unaryGoal rules records) := by
  mvcgen [unaryGoal, hr] <;> grind -linarith

/-- An expression at the start of a statement draws from the tokens it takes. -/
theorem draws_leadingGoal (n : Nat) : Draws 0 n (leadingGoal rules) := by
  mvcgen [leadingGoal, hr] <;> grind -linarith

/-! ## Statements -/

/-- A let statement draws from the tokens it takes and from what it is given. -/
@[spec] theorem draws_letStatement (attributes : List Node) (n : Nat) :
    Draws (weight attributes) n (letStatement rules attributes) := by
  mvcgen [letStatement, hr] <;> grind -linarith

omit hr in
/-- The path of a macro call that is a statement is read ahead. -/
@[grind →] theorem namesAll_of_macroStart {ts rest : List Token} {path : List Node}
    (h : macroStart ts = .statement path rest) : Token.namesAll rest ≤ Token.namesAll ts := by
  unfold macroStart at h
  split at h
  · cases h
  · rename_i hrun
    have hrest := run_of_triple (plainPath_triple (weight ts)) hrun le_rfl
    grind -linarith

/-- A statement draws from the tokens it takes. -/
@[spec] theorem draws_statement [Tally.Fits rules] (n : Nat) : Draws 0 n (statement rules) := by
  mvcgen [statement, hr] <;> grind -linarith

/-- The statements of a block draw from the tokens they take. -/
@[spec] theorem draws_statements [Tally.Fits rules] (n : Nat) : Draws 0 n (statements rules) := by
  mvcgen [statements, hr] <;> grind -linarith

/-- A block draws from the tokens it takes. -/
theorem draws_blockGoal [Tally.Fits rules] (n : Nat) : Draws 0 n (blockGoal rules) := by
  mvcgen [blockGoal, hr]
  grind -linarith

/-- A body with its inner attributes draws from the tokens it takes. -/
theorem draws_bodyGoal [Tally.Fits rules] (n : Nat) : Draws 0 n (bodyGoal rules) := by
  mvcgen [bodyGoal, hr] <;> grind -linarith

end

end SchemaLint.Code
