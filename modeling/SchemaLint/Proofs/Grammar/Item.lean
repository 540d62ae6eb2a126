import Mathlib
import SchemaLint.Proofs.Grammar.Expression

/-!
# Counting in items and files

* `draws_itemGoal`: what is counted in an item.
* `draws_grammar`: what is counted in every goal of the grammar.
* `namesAll_of_parseFile?`: a file counts no more than its tokens.
-/

set_option mvcgen.warning false

namespace SchemaLint.Code

open SchemaLint.Code.Parser Std.Do

section

variable [Tally]

/-! ## Functions and imports -/

/-- A visibility draws from the tokens it takes. -/
@[spec] theorem draws_visibility (n : Nat) : Draws 0 n visibility := by
  mvcgen [visibility] <;> grind -linarith

/-- The tree of an import draws from the tokens it takes. -/
@[spec] theorem draws_useTree (bound : Nat) (allowRoot : Bool) (n : Nat) :
    Draws 0 n (useTree bound allowRoot) := by
  induction bound generalizing allowRoot n with
  | zero => mvcgen [useTree]
  | succ bound ih => mvcgen [useTree, ih] <;> grind -linarith

variable {rules : Rules} (hr : ∀ goal n, Draws goal.owed n (rules goal))

include hr

/-- A receiver draws from the tokens it takes. -/
@[spec] theorem draws_receiver (n : Nat) : Draws 0 n (receiver rules) := by
  mvcgen [receiver, hr] <;> grind -linarith

/-- A parameter of a function draws from the tokens it takes. -/
@[spec] theorem draws_functionParam (n : Nat) : Draws 0 n (functionParam rules) := by
  mvcgen [functionParam, hr]
  -- a receiver is tried first, and what it leaves becomes the state
  case vc3 =>
    have hreceiver := run_of_triple (draws_receiver hr _) ‹receiver rules _ = some _› le_rfl
    grind -linarith
  all_goals grind -linarith

/-- The parameters that bind names are parts of the signature, so they do not count again. -/
@[spec] theorem signature_triple (n : Nat) :
    ⦃fun ts => ⌜weight ts ≤ n⌝⦄ signature rules ⦃⇓? s ts => ⌜weight s.2 + weight ts ≤ n⌝⦄ := by
  mvcgen [signature, hr]
  grind -linarith

/-! ## Types and their members -/

/-- A named field draws from the tokens it takes. -/
@[spec] theorem draws_namedField (n : Nat) : Draws 0 n (namedField rules) := by
  mvcgen [namedField, hr] <;> grind -linarith

/-- A field of a tuple structure draws from the tokens it takes. -/
@[spec] theorem draws_tupleField (n : Nat) : Draws 0 n (tupleField rules) := by
  mvcgen [tupleField, hr]
  grind -linarith

/-- The named fields of a structure draw from the tokens they take. -/
@[spec] theorem draws_namedFields (n : Nat) : Draws 0 n (namedFields rules) := by
  mvcgen [namedFields, hr]
  grind -linarith

/-- The fields of a tuple structure draw from the tokens they take. -/
@[spec] theorem draws_tupleFields (n : Nat) : Draws 0 n (tupleFields rules) := by
  mvcgen [tupleFields, hr]
  grind -linarith

/-- A variant of an enumeration draws from the tokens it takes. -/
@[spec] theorem draws_variant (n : Nat) : Draws 0 n (variant rules) := by
  mvcgen [variant, hr] <;> grind -linarith

/-- A structure draws from the tokens it takes. -/
@[spec] theorem draws_structItem (n : Nat) : Draws 0 n (structItem rules) := by
  mvcgen [structItem, hr] <;> grind -linarith

/-- An enumeration draws from the tokens it takes. -/
@[spec] theorem draws_enumItem (n : Nat) : Draws 0 n (enumItem rules) := by
  mvcgen [enumItem, hr] <;> grind -linarith

/-- A type alias or associated type draws from the tokens it takes. -/
@[spec] theorem draws_typeItem (context : TypeContext) (n : Nat) :
    Draws 0 n (typeItem rules context) := by
  mvcgen [typeItem, hr] <;> grind -linarith

/-- A constant draws from the tokens it takes. -/
@[spec] theorem draws_constItem (n : Nat) : Draws 0 n (constItem rules) := by
  mvcgen [constItem, hr] <;> grind -linarith

/-- A macro call as an item draws from the tokens it takes. -/
@[spec] theorem draws_macroItem [Tally.Fits rules] (n : Nat) : Draws 0 n (macroItem rules) := by
  mvcgen [macroItem, hr] <;> grind -linarith

/-- A static draws from the tokens it takes. -/
@[spec] theorem draws_staticItem (n : Nat) : Draws 0 n (staticItem rules) := by
  mvcgen [staticItem, hr] <;> grind -linarith

omit hr in
/-- An item, or the tokens that stand for it, draws from the tokens it takes and from what it is
given. -/
@[spec] theorem draws_itemOrTokens (begin : List Token) (usual : Bool) (parts : List Node)
    (n : Nat) : Draws (weight parts) n (itemOrTokens begin usual parts) := by
  mvcgen [itemOrTokens] <;> grind -linarith

/-- A function draws from the tokens it takes and from what it is given. -/
@[spec] theorem draws_functionItem (begin : List Token) (attributes front : List Node) (n : Nat) :
    Draws (weight attributes + weight front) n (functionItem rules begin attributes front) := by
  mvcgen [functionItem, hr] <;> grind -linarith

/-- A member of a trait draws from the tokens it takes. -/
@[spec] theorem draws_traitMember [Tally.Fits rules] (n : Nat) : Draws 0 n (traitMember rules) := by
  mvcgen [traitMember, hr] <;> grind -linarith

/-- A member of an implementation draws from the tokens it takes. -/
@[spec] theorem draws_implMember [Tally.Fits rules] (n : Nat) : Draws 0 n (implMember rules) := by
  mvcgen [implMember, hr] <;> grind -linarith

/-- The members between braces draw from the tokens they take. -/
@[spec] theorem draws_members {item : Parser Node} (hi : ∀ n, Draws 0 n item) (n : Nat) :
    Draws 0 n (members rules item) := by
  mvcgen [members, hr, hi] <;> grind -linarith

/-- A trait draws from the tokens it takes. -/
@[spec] theorem draws_traitItem [Tally.Fits rules] (n : Nat) : Draws 0 n (traitItem rules) := by
  mvcgen [traitItem, hr] <;> grind -linarith

/-- An implementation draws from the tokens it takes. -/
@[spec] theorem draws_implItem [Tally.Fits rules] (n : Nat) : Draws 0 n (implItem rules) := by
  mvcgen [implItem, hr] <;> grind -linarith

/-- A foreign item draws from the tokens it takes. -/
@[spec] theorem draws_foreignMember [Tally.Fits rules] (n : Nat) :
    Draws 0 n (foreignMember rules) := by
  mvcgen [foreignMember, hr] <;> grind -linarith

/-! ## Items and files -/

/-- An item after its attributes and visibility draws from the tokens it takes and from what it is
given. -/
@[spec] theorem draws_itemBody [Tally.Fits rules] (begin : List Token)
    (attributes vis : List Node) (n : Nat) :
    Draws (weight attributes + weight vis) n (itemBody rules begin attributes vis) := by
  mvcgen [itemBody, hr] <;> grind -linarith

/-- An item draws from the tokens it takes. -/
theorem draws_itemGoal [Tally.Fits rules] (n : Nat) : Draws 0 n (itemGoal rules) := by
  mvcgen [itemGoal, hr]
  grind -linarith

/-- A whole file draws from the tokens it takes. -/
theorem draws_codeFile (n : Nat) : Draws 0 n (codeFile rules) := by
  mvcgen [codeFile, hr] <;> grind -linarith

omit hr in
/-- Every goal draws what it yields from the tokens it takes: by induction on the depth of the
recursion, each step being one production. -/
theorem draws_grammar [∀ depth, Tally.Fits (grammar depth)] (depth : Nat) (goal : Goal) (n : Nat) :
    Draws goal.owed n (grammar depth goal) := by
  induction depth generalizing goal n with
  | zero => mvcgen [grammar]
  | succ depth ih =>
      cases goal with
      | expr records => exact draws_exprGoal ih records n
      | unary records => exact draws_unaryGoal ih records n
      | climb lhs records base => exact draws_climbGoal ih lhs records base n
      | leading => exact draws_leadingGoal ih n
      | type plus => exact draws_typeGoal ih plus n
      | pattern => exact draws_patternGoal ih n
      | alternatives => exact draws_alternativesGoal ih n
      | block => exact draws_blockGoal ih n
      | body => exact draws_bodyGoal ih n
      | item => exact draws_itemGoal ih n

omit hr in
/-- A file counts no more than its tokens. -/
theorem namesAll_of_parseFile? [∀ depth, Tally.Fits (grammar depth)] {source : String}
    {file : CodeFile} (h : parseFile? source = some file) :
    ∃ ts, Forest.ofFile? source = some ts ∧
      Node.namesAll file.nodes ≤ Token.namesAll ts := by
  obtain ⟨ts, hts, hfile⟩ := Option.bind_eq_some_iff.1 h
  refine ⟨ts, hts, ?_⟩
  split at hfile
  · rename_i hrun
    cases hfile
    have hnames := run_of_triple (draws_codeFile (draws_grammar _) _) hrun le_rfl
    simp only [weight_codeFile, weight_tokens, Token.namesAll_nil] at hnames
    simp only [CodeFile.nodes, Node.namesAll_append]
    omega
  · cases hfile

end

end SchemaLint.Code
