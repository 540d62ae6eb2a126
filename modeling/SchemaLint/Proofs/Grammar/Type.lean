import Mathlib
import SchemaLint.Proofs.Grammar.Draws

/-!
# Counting in paths, types and generic parameters

* `draws_qualifiedPath`: what is counted in a path.
* `draws_typeGoal`: what is counted in a type.
* `draws_generics`, `draws_whereClause`: what is counted in generic parameters and their conditions.
-/

set_option mvcgen.warning false

namespace SchemaLint.Code

open SchemaLint.Code.Parser Std.Do

section

variable [Tally]

/-! ## Elements in angle brackets -/

/-- The elements of a list in angle brackets, up to a bound on their number, draw from the tokens
they take. -/
@[spec] theorem draws_angleListGo {element : Parser (Bool × Node)}
    (he : ∀ n, Draws 0 n element) (bound n : Nat) : Draws 0 n (angleList.go element bound) := by
  induction bound generalizing n with
  | zero => mvcgen [angleList.go]
  | succ bound ih => mvcgen [angleList.go, he, ih] <;> grind -linarith

/-- A list in angle brackets draws from the tokens it takes. -/
@[spec] theorem draws_angleList {element : Parser (Bool × Node)} (he : ∀ n, Draws 0 n element)
    (n : Nat) : Draws 0 n (angleList element) := by
  mvcgen [angleList, he]

/-- Lifetimes joined by plus signs, up to a bound on their number, draw from the tokens they take.
-/
@[spec] theorem draws_lifetimeBoundsGo (ends : List Token → Bool) (bound n : Nat) :
    Draws 0 n (lifetimeBounds.go ends bound) := by
  induction bound generalizing n with
  | zero => mvcgen [lifetimeBounds.go]
  | succ bound ih => mvcgen [lifetimeBounds.go, ih] <;> grind -linarith

/-- Lifetimes joined by plus signs draw from the tokens they take. -/
@[spec] theorem draws_lifetimeBounds (ends : List Token → Bool) (n : Nat) :
    Draws 0 n (lifetimeBounds ends) := by
  mvcgen [lifetimeBounds]

/-- A lifetime parameter draws from the tokens it takes. -/
@[spec] theorem draws_lifetimeParam (n : Nat) : Draws 0 n lifetimeParam := by
  mvcgen [lifetimeParam] <;> grind -linarith

variable {rules : Rules} (hr : ∀ goal n, Draws goal.owed n (rules goal))

include hr

/-- A constant argument draws from the tokens it takes. -/
@[spec] theorem draws_constArgument (n : Nat) : Draws 0 n (constArgument rules) := by
  mvcgen [constArgument, hr] <;> grind -linarith

/-- Lifetimes introduced for what follows draw from the tokens they take. -/
@[spec] theorem draws_boundLifetimes (n : Nat) : Draws 0 n (boundLifetimes rules) := by
  mvcgen [boundLifetimes, hr] <;> grind -linarith

/-- A return type draws from the tokens it takes. -/
@[spec] theorem draws_returnType (plus : Bool) (n : Nat) : Draws 0 n (returnType rules plus) := by
  mvcgen [returnType, hr] <;> grind -linarith

/-- The types between parentheses after a path segment draw from the tokens they take. -/
@[spec] theorem draws_parenArguments (n : Nat) : Draws 0 n (parenArguments rules) := by
  mvcgen [parenArguments, hr]
  grind -linarith

/-! ## Bounds -/

/-- A trait bound draws from the tokens it takes. -/
@[spec] theorem draws_traitBound (allowConst : Bool) (n : Nat) :
    Draws 0 n (traitBound rules allowConst) := by
  mvcgen [traitBound, hr] <;> grind -linarith

/-- A bound of a type draws from the tokens it takes. -/
@[spec] theorem draws_bound (allowCaptures allowConst : Bool) (n : Nat) :
    Draws 0 n (bound rules allowCaptures allowConst) := by
  mvcgen [bound, hr] <;> grind -linarith

/-- Bounds joined by plus signs, up to an end or a given number, draw from the tokens they take. -/
@[spec] theorem draws_boundsUntilGo (ends : List Token → Bool) (k n : Nat) :
    Draws 0 n (boundsUntil.go rules ends k) := by
  induction k generalizing n with
  | zero => mvcgen [boundsUntil.go]
  | succ k ih => mvcgen [boundsUntil.go, hr, ih] <;> grind -linarith

/-- Bounds joined by plus signs, up to an end, draw from the tokens they take. -/
@[spec] theorem draws_boundsUntil (ends : List Token → Bool) (n : Nat) :
    Draws 0 n (boundsUntil rules ends) := by
  mvcgen [boundsUntil, hr]

/-- The bounds of a type, up to a given number, draw from the tokens they take. -/
@[spec] theorem draws_boundsGo (plus allowCaptures allowConst : Bool) (k n : Nat) :
    Draws 0 n (bounds.go rules plus allowCaptures allowConst k) := by
  induction k generalizing n with
  | zero => mvcgen [bounds.go]
  | succ k ih => mvcgen [bounds.go, hr, ih] <;> grind -linarith

/-- The bounds of a type draw from the tokens they take. -/
@[spec] theorem draws_bounds (plus allowCaptures allowConst : Bool) (n : Nat) :
    Draws 0 n (bounds rules plus allowCaptures allowConst) := by
  mvcgen [bounds, hr]

/-- A generic argument draws from the tokens it takes. -/
@[spec] theorem draws_genericArgument (n : Nat) : Draws 0 n (genericArgument rules) := by
  mvcgen [genericArgument, hr] <;> grind -linarith

/-- The generic arguments of a segment draw from the tokens they take. -/
@[spec] theorem draws_genericArguments (n : Nat) : Draws 0 n (genericArguments rules) := by
  mvcgen [genericArguments, hr]
  grind -linarith

/-! ## Paths -/

/-- A path segment draws from the tokens it takes. -/
@[spec] theorem draws_pathSegment (inExpr : Bool) (n : Nat) :
    Draws 0 n (pathSegment rules inExpr) := by
  mvcgen [pathSegment, hr] <;> grind -linarith

/-- The rest of a path draws from the tokens it takes and from what it is given. -/
@[spec] theorem draws_pathRest (inExpr : Bool) (p : PathParts) (n : Nat) :
    Draws (weight p) n (pathRest rules inExpr p) := by
  mvcgen [pathRest, hr]
  · grind -linarith
  · grind -linarith
  · rename_i more _ _
    have hfold := weight_foldl_push p more
    grind -linarith

/-- A simple path draws from the tokens it takes. -/
@[spec] theorem draws_simplePath (inExpr : Bool) (n : Nat) :
    Draws 0 n (simplePath rules inExpr) := by
  mvcgen [simplePath, hr]
  grind -linarith

/-- A qualified path draws from the tokens it takes. -/
@[spec] theorem draws_qualifiedPath (inExpr : Bool) (n : Nat) :
    Draws 0 n (qualifiedPath rules inExpr) := by
  mvcgen [qualifiedPath, hr]
  -- the segments after the bracket are pushed one after another
  case vc8 | vc13 =>
    rename_i first _ _ more _ _
    rw [List.foldl_cons]
    have hfold := fun p => weight_foldl_push p more
    grind -linarith
  all_goals grind -linarith

/-- Arguments in round brackets after a path draw from the tokens they take and from what they are
given. -/
@[spec] theorem draws_functionArguments (bound : Nat) (p : PathParts) (n : Nat) :
    Draws (weight p) n (functionArguments rules bound p) := by
  induction bound generalizing p n with
  | zero => mvcgen [functionArguments]
  | succ bound ih => mvcgen [functionArguments, hr, ih] <;> grind -linarith

/-- A path in a type draws from the tokens it takes. -/
@[spec] theorem draws_typePath (n : Nat) : Draws 0 n (typePath rules) := by
  mvcgen [typePath, hr]
  grind -linarith

/-! ## Types -/

omit hr in
/-- The calling convention of a function draws from the tokens it takes. -/
@[spec] theorem draws_abi (n : Nat) : Draws 0 n abi := by
  mvcgen [abi] <;> grind -linarith

/-- An argument of a function type draws from the tokens it takes. -/
@[spec] theorem draws_functionTypeArgument (n : Nat) :
    Draws 0 n (functionTypeArgument rules) := by
  mvcgen [functionTypeArgument, hr] <;> grind -linarith

/-- A function type draws from the tokens it takes. -/
@[spec] theorem draws_functionType (n : Nat) : Draws 0 n (functionType rules) := by
  mvcgen [functionType, hr]
  grind -linarith

/-- Bounds after a plus sign draw from the tokens they take. -/
@[spec] theorem draws_furtherBounds (n : Nat) : Draws 0 n (furtherBounds rules) := by
  mvcgen [furtherBounds, hr] <;> grind -linarith

/-- A parenthesised or tuple type draws from the tokens it takes. -/
@[spec] theorem draws_parenType (plus : Bool) (n : Nat) : Draws 0 n (parenType rules plus) := by
  mvcgen [parenType, hr]
  -- a single element without a comma stands for itself
  case vc8 | vc9 =>
    have hone := congrArg weight ‹(_ : List Node) = [_]›
    grind -linarith
  all_goals grind -linarith

/-- An array or slice type draws from the tokens it takes. -/
@[spec] theorem draws_bracketType (n : Nat) : Draws 0 n (bracketType rules) := by
  mvcgen [bracketType, hr] <;> grind -linarith

/-- A type that begins with a path draws from the tokens it takes and from what it is given. -/
@[spec] theorem draws_pathType [Tally.Fits rules] (plus : Bool) (lifetimes : List Node) (n : Nat) :
    Draws (weight lifetimes) n (pathType rules plus lifetimes) := by
  mvcgen [pathType, hr] <;> grind -linarith

/-- A type draws from the tokens it takes. -/
theorem draws_typeGoal [Tally.Fits rules] (plus : Bool) (n : Nat) :
    Draws 0 n (typeGoal rules plus) := by
  mvcgen [typeGoal, hr] <;> grind -linarith

/-! ## Generic parameters -/

/-- A generic parameter draws from the tokens it takes. -/
@[spec] theorem draws_genericParam (n : Nat) : Draws 0 n (genericParam rules) := by
  mvcgen [genericParam, hr] <;> grind -linarith

/-- The generic parameters of an item draw from the tokens they take. -/
@[spec] theorem draws_generics (n : Nat) : Draws 0 n (generics rules) := by
  mvcgen [generics, hr] <;> grind -linarith

/-- A condition of a where clause draws from the tokens it takes. -/
@[spec] theorem draws_whereCondition (n : Nat) : Draws 0 n (whereCondition rules) := by
  mvcgen [whereCondition, hr] <;> grind -linarith

/-- The conditions of a where clause, up to a given number, draw from the tokens they take. -/
@[spec] theorem draws_whereClauseGo (bound n : Nat) : Draws 0 n (whereClause.go rules bound) := by
  induction bound generalizing n with
  | zero => mvcgen [whereClause.go]
  | succ bound ih => mvcgen [whereClause.go, hr, ih] <;> grind -linarith

/-- A where clause draws from the tokens it takes. -/
@[spec] theorem draws_whereClause (n : Nat) : Draws 0 n (whereClause rules) := by
  mvcgen [whereClause, hr] <;> grind -linarith

end

end SchemaLint.Code
