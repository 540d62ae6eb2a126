import Mathlib
import SchemaLint.Proofs.Grammar.Reads

/-!
# The source of paths, types and generic parameters

* `reads_bound`, `reads_bounds`: where a bound begins.
* `takes_simplePath`, `takes_qualifiedPath`, `reads_typePath`: the last name of a path stands where
  it says.
* `reads_typeGoal`: where a type begins and what is inside it.
* `reads_genericParam`, `reads_whereClause`: what is inside generic parameters and conditions.
-/

set_option mvcgen.warning false

namespace SchemaLint.Code

open SchemaLint.Code.Parser Std.Do

section

variable [Source]

/-! ## Elements in angle brackets -/

/-- The elements of a list in angle brackets, up to a bound on their number, keep to the source. -/
@[spec high] theorem reads_angleListGo {element : Parser (Bool × Node)}
    (he : ∀ before, Reads grounded before element) (bound : Nat) (before : List Token) :
    Reads grounded before (angleList.go element bound) := by
  induction bound generalizing before with
  | zero =>
      unfold angleList.go
      mvcgen
  | succ bound ih =>
      unfold angleList.go
      mvcgen [he, ih, -draws_angleListGo] <;> grind -linarith

/-- A list in angle brackets keeps to the source. -/
@[spec high] theorem reads_angleList {element : Parser (Bool × Node)}
    (he : ∀ before, Reads grounded before element) (before : List Token) :
    Reads grounded before (angleList element) := by
  unfold angleList
  mvcgen [he]

/-- Lifetimes joined by plus signs, up to a bound on their number, keep to the source. -/
@[spec high] theorem reads_lifetimeBoundsGo (ends : List Token → Bool) (bound : Nat)
    (before : List Token) : Reads grounded before (lifetimeBounds.go ends bound) := by
  induction bound generalizing before with
  | zero =>
      unfold lifetimeBounds.go
      mvcgen
  | succ bound ih =>
      unfold lifetimeBounds.go
      mvcgen [ih, -draws_lifetimeBoundsGo] <;> grind -linarith

/-- Lifetimes joined by plus signs keep to the source. -/
@[spec high] theorem reads_lifetimeBounds (ends : List Token → Bool) (before : List Token) :
    Reads grounded before (lifetimeBounds ends) := by
  unfold lifetimeBounds
  mvcgen

/-- A lifetime parameter keeps to the source. -/
@[spec high] theorem reads_lifetimeParam (before : List Token) :
    Reads grounded before lifetimeParam := by
  unfold lifetimeParam
  mvcgen <;> grind -linarith

variable {rules : Rules} (hr : ∀ goal before, Serves goal before (rules goal))

include hr

/-- A constant argument keeps to the source. -/
@[spec high] theorem reads_constArgument (before : List Token) :
    Reads grounded before (constArgument rules) := by
  unfold constArgument
  mvcgen [hr] <;> grind -linarith

/-- Lifetimes introduced for what follows keep to the source. -/
@[spec high] theorem reads_boundLifetimes (before : List Token) :
    Reads (fun ns : List Node => Node.GroundedAll ns ∧ (ns = [] ∨ Begins (Node.shownAll ns)))
      before (boundLifetimes rules) := by
  unfold boundLifetimes
  mvcgen [hr] <;> grind -linarith

/-- A return type keeps to the source. -/
@[spec high] theorem reads_returnType (plus : Bool) (before : List Token) :
    Reads grounded before (returnType rules plus) := by
  unfold returnType
  mvcgen [hr] <;> grind -linarith

/-- The types between parentheses after a path segment keep to the source. -/
@[spec high] theorem reads_parenArguments (before : List Token) :
    Reads grounded before (parenArguments rules) := by
  unfold parenArguments
  mvcgen [hr] <;> grind -linarith

/-! ## Bounds -/

/-- A trait bound keeps to the source. -/
@[spec high] theorem reads_traitBound (allowConst : Bool) (before : List Token) :
    Reads (fun n : Node => n.Grounded ∧ Begins n.shown) before (traitBound rules allowConst) := by
  unfold traitBound
  mvcgen [hr] <;> grind -linarith

/-- A bound of a type keeps to the source. -/
@[spec high] theorem reads_bound (allowCaptures allowConst : Bool) (before : List Token) :
    Reads (fun n : Node => n.Grounded ∧ Begins n.shown) before
      (bound rules allowCaptures allowConst) := by
  unfold bound
  mvcgen [hr] <;> grind -linarith

/-- Bounds joined by plus signs, up to an end or a given number, keep to the source. -/
@[spec high] theorem reads_boundsUntilGo (ends : List Token → Bool) (k : Nat)
    (before : List Token) : Reads grounded before (boundsUntil.go rules ends k) := by
  induction k generalizing before with
  | zero =>
      unfold boundsUntil.go
      mvcgen
  | succ k ih =>
      unfold boundsUntil.go
      mvcgen [hr, ih, -draws_boundsUntilGo] <;> grind -linarith

/-- Bounds joined by plus signs, up to an end, keep to the source. -/
@[spec high] theorem reads_boundsUntil (ends : List Token → Bool) (before : List Token) :
    Reads grounded before (boundsUntil rules ends) := by
  unfold boundsUntil
  mvcgen [hr]

/-- The bounds of a type, up to a given number, keep to the source. -/
@[spec high] theorem reads_boundsGo (plus allowCaptures allowConst : Bool) (k : Nat)
    (before : List Token) :
    Reads (fun ns : List Node => Node.GroundedAll ns ∧ Begins (Node.shownAll ns)) before
      (bounds.go rules plus allowCaptures allowConst k) := by
  induction k generalizing before with
  | zero =>
      unfold bounds.go
      mvcgen
  | succ k ih =>
      unfold bounds.go
      mvcgen [hr, ih, -draws_boundsGo] <;> grind -linarith

/-- The bounds of a type keep to the source. -/
@[spec high] theorem reads_bounds (plus allowCaptures allowConst : Bool) (before : List Token) :
    Reads (fun ns : List Node => Node.GroundedAll ns ∧ Begins (Node.shownAll ns)) before
      (bounds rules plus allowCaptures allowConst) := by
  unfold bounds
  mvcgen [hr]

/-- A generic argument keeps to the source. -/
@[spec high] theorem reads_genericArgument (before : List Token) :
    Reads grounded before (genericArgument rules) := by
  unfold genericArgument
  mvcgen [hr] <;> grind -linarith

/-- The generic arguments of a segment keep to the source. -/
@[spec high] theorem reads_genericArguments (before : List Token) :
    Reads grounded before (genericArguments rules) := by
  unfold genericArguments
  mvcgen [hr]
  grind -linarith

/-! ## Paths -/

/-- A path segment begins with a token and keeps to the source. -/
@[spec high] theorem takes_pathSegment (inExpr : Bool) (before : List Token) :
    Takes grounded before (pathSegment rules inExpr) := by
  unfold pathSegment
  mvcgen [hr] <;> grind -linarith

/-- The rest of a path keeps to the source if what it is given does. -/
@[spec high] theorem extends_pathRest (inExpr : Bool) (p : PathParts) (before : List Token) :
    Extends (grounded p) grounded before (pathRest rules inExpr p) := by
  unfold pathRest
  mvcgen [hr] <;> grind -linarith

/-- A simple path begins with a token and keeps to the source. -/
@[spec high] theorem takes_simplePath (inExpr : Bool) (before : List Token) :
    Takes grounded before (simplePath rules inExpr) := by
  unfold simplePath
  mvcgen [hr]
  grind -linarith

/-- A qualified path begins with a token and keeps to the source. -/
@[spec high] theorem takes_qualifiedPath (inExpr : Bool) (before : List Token) :
    Takes grounded before (qualifiedPath rules inExpr) := by
  unfold qualifiedPath
  mvcgen [hr]
  -- the segments after the bracket are pushed one after another
  case vc8 | vc13 =>
    intro hbefore
    rw [List.foldl_cons]
    refine ⟨grounded_foldl_push (grounded_push ?_ ?_ (.inl ?_)) ?_, ?_⟩ <;> grind -linarith
  all_goals grind -linarith

/-- Arguments in round brackets after a path keep to the source if what they are given does. -/
@[spec high] theorem extends_functionArguments (bound : Nat) (p : PathParts)
    (before : List Token) :
    Extends (grounded p) grounded before (functionArguments rules bound p) := by
  induction bound generalizing p before with
  | zero =>
      unfold functionArguments
      mvcgen
      grind -linarith
  | succ bound ih =>
      unfold functionArguments
      mvcgen [hr, ih, -draws_functionArguments] <;> grind -linarith

/-- A path in a type keeps to the source. -/
@[spec high] theorem reads_typePath (before : List Token) :
    Reads grounded before (typePath rules) := by
  unfold typePath
  mvcgen [hr]
  grind -linarith

/-! ## Types -/

omit hr in
/-- The calling convention of a function keeps to the source. -/
@[spec high] theorem reads_abi (before : List Token) :
    Reads (fun ns : List Node => Node.GroundedAll ns ∧ Fronted (Node.shownAll ns)) before abi := by
  unfold abi
  mvcgen <;> grind -linarith

/-- An argument of a function type keeps to the source. -/
@[spec high] theorem reads_functionTypeArgument (before : List Token) :
    Reads grounded before (functionTypeArgument rules) := by
  unfold functionTypeArgument
  mvcgen [hr] <;> grind -linarith

/-- A function type keeps to the source. -/
@[spec high] theorem reads_functionType (before : List Token) :
    Reads (fun ns : List Node => Node.GroundedAll ns ∧ Begins (Node.shownAll ns)) before
      (functionType rules) := by
  unfold functionType
  mvcgen [hr]
  grind -linarith

/-- Bounds after a plus sign keep to the source. -/
@[spec high] theorem reads_furtherBounds (before : List Token) :
    Reads grounded before (furtherBounds rules) := by
  unfold furtherBounds
  mvcgen [hr] <;> grind -linarith

/-- A parenthesised or tuple type keeps to the source. -/
@[spec high] theorem reads_parenType (plus : Bool) (before : List Token) :
    Reads grounded before (parenType rules plus) := by
  unfold parenType
  mvcgen [hr] <;> grind -linarith

/-- An array or slice type keeps to the source. -/
@[spec high] theorem reads_bracketType (before : List Token) :
    Reads grounded before (bracketType rules) := by
  unfold bracketType
  mvcgen [hr] <;> grind -linarith

/-- A type that begins with a path keeps to the source if what it is given does. -/
@[spec high] theorem extends_pathType (plus : Bool) (lifetimes : List Node)
    (before : List Token) :
    Extends (Node.GroundedAll lifetimes ∧ (lifetimes = [] ∨ Begins (Node.shownAll lifetimes)))
      grounded before (pathType rules plus lifetimes) := by
  unfold pathType
  mvcgen [hr] <;> grind -linarith

/-- A type keeps to the source. -/
theorem reads_typeGoal (plus : Bool) (before : List Token) :
    Reads grounded before (typeGoal rules plus) := by
  unfold typeGoal
  refine .of fun hbefore => ?_
  mvcgen [hr] <;> grind -linarith

/-! ## Generic parameters -/

/-- A generic parameter keeps to the source. -/
@[spec high] theorem reads_genericParam (before : List Token) :
    Reads grounded before (genericParam rules) := by
  unfold genericParam
  mvcgen [hr] <;>
    simp only [grounded_prod, grounded_node, Node.Grounded, Node.groundedAll_append,
      Node.groundedAll_cons] <;> grind -linarith

/-- The generic parameters of an item keep to the source. -/
@[spec high] theorem reads_generics (before : List Token) :
    Reads grounded before (generics rules) := by
  unfold generics
  mvcgen [hr] <;>
    simp only [grounded_prod, grounded_nodes, Node.groundedAll_cons, Node.Grounded] <;>
    grind -linarith

/-- A condition of a where clause keeps to the source. -/
@[spec high] theorem reads_whereCondition (before : List Token) :
    Reads grounded before (whereCondition rules) := by
  unfold whereCondition
  mvcgen [hr] <;> grind -linarith

/-- The conditions of a where clause, up to a given number, keep to the source. -/
@[spec high] theorem reads_whereClauseGo (bound : Nat) (before : List Token) :
    Reads grounded before (whereClause.go rules bound) := by
  induction bound generalizing before with
  | zero =>
      unfold whereClause.go
      mvcgen
  | succ bound ih =>
      unfold whereClause.go
      mvcgen [hr, ih, -draws_whereClauseGo] <;> grind -linarith

/-- A where clause keeps to the source. -/
@[spec high] theorem reads_whereClause (before : List Token) :
    Reads grounded before (whereClause rules) := by
  unfold whereClause
  mvcgen [hr] <;> grind -linarith

end

end SchemaLint.Code
