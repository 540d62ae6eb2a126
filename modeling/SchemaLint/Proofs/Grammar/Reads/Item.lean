import Mathlib
import SchemaLint.Proofs.Grammar.Reads.Expression

/-!
# The source of items and files

* `reads_itemGoal`: what is inside an item.
* `serves_grammar`: what is inside the result of every goal of the grammar.
* `groundedAll_of_parseFile?`: the record literals and method calls of a file are where its tokens
  are.
-/

set_option mvcgen.warning false

namespace SchemaLint.Code

open SchemaLint.Code.Parser Std.Do

section

variable [Source]

/-! ## Functions and imports -/

/-- A visibility keeps to the source. -/
@[spec high] theorem reads_visibility (before : List Token) :
    Reads grounded before visibility := by
  unfold visibility
  mvcgen <;> grind -linarith

/-- The tree of an import keeps to the source. -/
@[spec high] theorem reads_useTree (bound : Nat) (allowRoot : Bool) (before : List Token) :
    Reads grounded before (useTree bound allowRoot) := by
  induction bound generalizing allowRoot before with
  | zero =>
      unfold useTree
      mvcgen
  | succ bound ih =>
      unfold useTree
      mvcgen [ih, -draws_useTree] <;> grind -linarith

variable {rules : Rules} (hr : ∀ goal before, Serves goal before (rules goal))

include hr

/-- A receiver keeps to the source. -/
@[spec high] theorem reads_receiver (before : List Token) :
    Reads grounded before (receiver rules) := by
  unfold receiver
  mvcgen [hr] <;> grind -linarith

/-- A parameter of a function keeps to the source. -/
@[spec high] theorem reads_functionParam (before : List Token) :
    Reads grounded before (functionParam rules) := by
  unfold functionParam
  mvcgen [hr] <;> try simp only [grounded_param, Param.node]
  -- a receiver is tried first, and what it leaves becomes the state
  case vc3 =>
    have hreceiver := run_of_triple (reads_receiver hr _) ‹receiver rules _ = some _› rfl
    grind -linarith
  all_goals grind -linarith

/-- The parameters that bind names are parts of the signature, so they do not count again. -/
@[spec high] theorem reads_signature (before : List Token) :
    Reads (fun s : List Node × List Node => Node.GroundedAll s.2) before (signature rules) := by
  unfold signature
  mvcgen [hr]
  grind -linarith

/-! ## Types and their members -/

/-- A named field keeps to the source. -/
@[spec high] theorem reads_namedField (before : List Token) :
    Reads grounded before (namedField rules) := by
  unfold namedField
  mvcgen [hr] <;> grind -linarith

/-- A field of a tuple structure keeps to the source. -/
@[spec high] theorem reads_tupleField (before : List Token) :
    Reads grounded before (tupleField rules) := by
  unfold tupleField
  mvcgen [hr]
  grind -linarith

/-- The named fields of a structure keep to the source. -/
@[spec high] theorem reads_namedFields (before : List Token) :
    Reads grounded before (namedFields rules) := by
  unfold namedFields
  mvcgen [hr]
  grind -linarith

/-- The fields of a tuple structure keep to the source. -/
@[spec high] theorem reads_tupleFields (before : List Token) :
    Reads grounded before (tupleFields rules) := by
  unfold tupleFields
  mvcgen [hr]
  grind -linarith

/-- A variant of an enumeration keeps to the source. -/
@[spec high] theorem reads_variant (before : List Token) :
    Reads grounded before (variant rules) := by
  unfold variant
  mvcgen [hr] <;> grind -linarith

/-- A structure keeps to the source. -/
@[spec high] theorem reads_structItem (before : List Token) :
    Reads grounded before (structItem rules) := by
  unfold structItem
  mvcgen [hr] <;> grind -linarith

/-- An enumeration keeps to the source. -/
@[spec high] theorem reads_enumItem (before : List Token) :
    Reads grounded before (enumItem rules) := by
  unfold enumItem
  mvcgen [hr] <;> grind -linarith

/-- A type alias or associated type keeps to the source. -/
@[spec high] theorem reads_typeItem (context : TypeContext) (before : List Token) :
    Reads grounded before (typeItem rules context) := by
  unfold typeItem
  mvcgen [hr] <;>
    simp only [grounded_prod, grounded_nodes, Node.groundedAll_append, Node.groundedAll_cons,
      Node.Grounded] <;> grind -linarith

/-- A constant keeps to the source. -/
@[spec high] theorem reads_constItem (before : List Token) :
    Reads grounded before (constItem rules) := by
  unfold constItem
  mvcgen [hr] <;> grind -linarith

/-- A macro call as an item keeps to the source. -/
@[spec high] theorem reads_macroItem (before : List Token) :
    Reads grounded before (macroItem rules) := by
  unfold macroItem
  mvcgen [hr] <;> grind -linarith

/-- A static keeps to the source. -/
@[spec high] theorem reads_staticItem (before : List Token) :
    Reads grounded before (staticItem rules) := by
  unfold staticItem
  mvcgen [hr] <;>
    simp only [grounded_prod, grounded_nodes, Node.groundedAll_cons,
      Node.Grounded] <;> grind -linarith

omit hr in
/-- An item, or the tokens that stand for it, keeps to the source if what it is given does. -/
@[spec high] theorem extends_itemOrTokens (begin : List Token) (usual : Bool) (parts : List Node)
    (before : List Token) :
    Extends (Node.GroundedAll parts) grounded before (itemOrTokens begin usual parts) := by
  unfold itemOrTokens
  mvcgen <;> grind -linarith

/-- A function keeps to the source if what it is given does. -/
@[spec high] theorem extends_functionItem (begin : List Token) (attributes front : List Node)
    (before : List Token) :
    Extends (Node.GroundedAll attributes ∧ Node.GroundedAll front) grounded before
      (functionItem rules begin attributes front) := by
  unfold functionItem
  mvcgen [hr] <;> grind -linarith

/-- A member of a trait keeps to the source. -/
@[spec high] theorem reads_traitMember (before : List Token) :
    Reads grounded before (traitMember rules) := by
  unfold traitMember
  mvcgen [hr] <;> grind -linarith

/-- A member of an implementation keeps to the source. -/
@[spec high] theorem reads_implMember (before : List Token) :
    Reads grounded before (implMember rules) := by
  unfold implMember
  mvcgen [hr] <;> grind -linarith

/-- The members between braces keep to the source. -/
@[spec high] theorem reads_members {item : Parser Node} (hi : ∀ before, Reads grounded before item)
    (before : List Token) : Reads grounded before (members rules item) := by
  unfold members
  mvcgen [hr, hi] <;> grind -linarith

/-- A trait keeps to the source. -/
@[spec high] theorem reads_traitItem (before : List Token) :
    Reads grounded before (traitItem rules) := by
  unfold traitItem
  mvcgen [hr] <;> grind -linarith

/-- An implementation keeps to the source. -/
@[spec high] theorem reads_implItem (before : List Token) :
    Reads grounded before (implItem rules) := by
  unfold implItem
  mvcgen [hr] <;>
    simp only [grounded_prod, grounded_nodes, groundedAll_headed, Node.groundedAll_append,
      Node.groundedAll_cons, Node.Grounded] <;> grind -linarith

/-- A foreign item keeps to the source. -/
@[spec high] theorem reads_foreignMember (before : List Token) :
    Reads grounded before (foreignMember rules) := by
  unfold foreignMember
  mvcgen [hr] <;> grind -linarith

/-! ## Items and files -/

/-- An item after its attributes and visibility keeps to the source if what it is given does. -/
@[spec high] theorem extends_itemBody (begin : List Token) (attributes vis : List Node)
    (before : List Token) :
    Extends (Node.GroundedAll attributes ∧ Node.GroundedAll vis) grounded before
      (itemBody rules begin attributes vis) := by
  unfold itemBody
  mvcgen [hr] <;> grind -linarith

/-- An item keeps to the source. -/
theorem reads_itemGoal (before : List Token) :
    Reads (fun e : Parsed => e.node.Grounded) before (itemGoal rules) := by
  unfold itemGoal
  mvcgen [hr]
  grind -linarith

/-- A whole file keeps to the source. -/
theorem reads_codeFile (before : List Token) : Reads grounded before (codeFile rules) := by
  unfold codeFile
  mvcgen [hr] <;> grind -linarith

omit hr in
/-- Every goal keeps to the source: by induction on the depth of the recursion, each step being one
production. -/
theorem serves_grammar (depth : Nat) (goal : Goal) (before : List Token) :
    Serves goal before (grammar depth goal) := by
  induction depth generalizing goal before with
  | zero => mvcgen [grammar]
  | succ depth ih =>
      cases goal with
      | expr records => exact .of_takes (takes_exprGoal ih records before) le_rfl
      | unary records => exact .of_takes (takes_unaryGoal ih records before) le_rfl
      | climb lhs records base =>
          exact .of_extends (extends_climbGoal ih lhs records base before) rfl
      | leading => exact .of_reads (reads_leadingGoal ih before) rfl
      | type plus => exact .of_reads (reads_typeGoal ih plus before) rfl
      | pattern => exact .of_reads (reads_patternGoal ih before) rfl
      | alternatives => exact .of_reads (reads_alternativesGoal ih before) rfl
      | block => exact .of_takes (takes_blockGoal ih before) le_rfl
      | body => exact .of_takes (takes_bodyGoal ih before) le_rfl
      | item => exact .of_reads (reads_itemGoal ih before) rfl

omit hr in
/-- If the tokens of a file stand where they say, the record literals and method calls in it are
where its tokens are. -/
theorem groundedAll_of_parseFile? {source : String} {file : CodeFile} {ts : List Token}
    (h : parseFile? source = some file) (hts : Forest.ofFile? source = some ts)
    (hground : Token.GroundedAll ts) : Node.GroundedAll file.nodes := by
  obtain ⟨ts', hts', hfile⟩ := Option.bind_eq_some_iff.1 h
  obtain rfl : ts = ts' := Option.some.inj (hts.symm.trans hts')
  split at hfile
  · rename_i hrun
    cases hfile
    have hread := run_of_triple (reads_codeFile (serves_grammar _) ts) hrun rfl hground
    exact (Node.groundedAll_append _ _).mpr hread.1
  · cases hfile

end

end SchemaLint.Code
