import Mathlib
import SchemaLint.Proofs.Grammar.Ground

/-!
# Parsers keep to the source

If the tokens that a parser is given stand where they say, what it yields has its record literals
and method calls at places of the source.  As with what a parse draws, every function has one
specification, a triple, and those of its callers are found from it.

* `Reads`, `Takes`, `Extends`: what a parser says about what it yields.
* `takes_op`, `takes_identifier` and others: parsers of single tokens begin with what they take.
* `takes_within`, `reads_commaList` and others: groups and lists.
* `Goal.Given`, `Goal.Result`, `Goal.least`, `Serves`: what is said of each goal of the grammar.
* `extends_macroTail`, `reads_outerAttributes` and others: macro calls and attributes.
-/

set_option mvcgen.warning false

namespace SchemaLint.Code

open SchemaLint.Code.Parser Std.Do

/-- An end of the tokens stays one when its first token is taken. -/
@[grind →] theorem suffix_of_cons {t : Token} {rest before : List Token}
    (h : t :: rest <:+ before) : rest <:+ before :=
  (List.suffix_cons t rest).trans h

/-! ## Looking ahead -/

/-- Looking ahead takes no token and yields what the next tokens say. -/
@[spec high] theorem ahead_triple (look : List Token → Bool) (before : List Token) :
    ⦃fun ts => ⌜ts = before⌝⦄ ahead look ⦃⇓? b ts => ⌜ts = before ∧ b = look before⌝⦄ := by
  unfold ahead
  mvcgen
  grind -linarith

/-- Asking whether tokens are left takes none and yields the answer. -/
@[spec high] theorem atEnd_triple (before : List Token) :
    ⦃fun ts => ⌜ts = before⌝⦄ atEnd ⦃⇓? b ts => ⌜ts = before ∧ b = before.isEmpty⌝⦄ := by
  unfold atEnd
  mvcgen
  grind -linarith

/-- A check takes no token and passes only if its condition holds. -/
@[spec high] theorem require_triple (condition : Bool) (before : List Token) :
    ⦃fun ts => ⌜ts = before⌝⦄ require condition ⦃⇓? _ ts => ⌜ts = before ∧ condition⌝⦄ := by
  unfold require
  mvcgen

/-- The tokens taken since an earlier point are those that are no longer there. -/
@[spec high] theorem since_exact (earlier before : List Token) :
    ⦃fun ts => ⌜ts = before⌝⦄ since earlier
    ⦃⇓? a ts => ⌜ts = before ∧ a = earlier.take (earlier.length - before.length)⌝⦄ := by
  unfold since
  mvcgen
  grind -linarith

/-- What holds of every outcome of a parse is a triple. -/
theorem triple_of_run {α : Type} {p : Parser α} {P : List Token → Prop}
    {Q : α → List Token → Prop}
    (h : ∀ ts a rest, P ts → p.run ts = some (a, rest) → Q a rest) :
    ⦃fun ts => ⌜P ts⌝⦄ p ⦃⇓? a ts => ⌜Q a ts⌝⦄ := by
  intro ts hts
  change (wp⟦p.run ts⟧ _).down
  cases hrun : p.run ts with
  | none => exact trivial
  | some r => exact h ts r.1 r.2 hts hrun

section

variable [Source]

/-- What a parser says about what it yields if the tokens stand where they say.  Those that it
leaves do so as well, and they are the last of those before. -/
abbrev Reads {α : Type} (Q : α → Prop) (before : List Token) (p : Parser α) : Prop :=
  ⦃fun ts => ⌜ts = before⌝⦄ p ⦃⇓? a ts => ⌜Token.GroundedAll before →
    Q a ∧ Token.GroundedAll ts ∧ ts <:+ before⌝⦄

/-- The same of a parser that takes a token. -/
abbrev Takes {α : Type} (Q : α → Prop) (before : List Token) (p : Parser α) : Prop :=
  ⦃fun ts => ⌜ts = before⌝⦄ p ⦃⇓? a ts => ⌜Token.GroundedAll before →
    Q a ∧ Token.GroundedAll ts ∧ ts <:+ before ∧ ts.length < before.length⌝⦄

/-- The same of a parser that goes on from something given. -/
abbrev Extends {α : Type} (given : Prop) (Q : α → Prop) (before : List Token) (p : Parser α) :
    Prop :=
  ⦃fun ts => ⌜ts = before⌝⦄ p ⦃⇓? a ts => ⌜given → Token.GroundedAll before →
    Q a ∧ Token.GroundedAll ts ∧ ts <:+ before⌝⦄

/-- It is enough to look at tokens that stand where they say.  In this form what is left to prove of
a call at the end is about the tokens there. -/
theorem Reads.of {α : Type} {Q : α → Prop} {before : List Token} {p : Parser α}
    (h : Token.GroundedAll before → ⦃fun ts => ⌜ts = before⌝⦄ p
      ⦃⇓? a ts => ⌜Q a ∧ Token.GroundedAll ts ∧ ts <:+ before⌝⦄) :
    Reads Q before p :=
  triple_of_run fun _ _ _ hts hrun hbefore => run_of_triple (h hbefore) hrun hts

/-- What a parser says of what it yields may be weakened. -/
theorem Reads.imp {α : Type} {Q Q' : α → Prop} {before : List Token} {p : Parser α}
    (h : Reads Q before p) (himp : ∀ a, Q a → Q' a) : Reads Q' before p := by
  mvcgen [h]
  grind -linarith

/-! ## Taking tokens -/

/-- An operator begins with the token it takes. -/
@[spec high] theorem takes_op (operator : String) (before : List Token) :
    Takes Begins before (op operator) := by
  unfold op
  mvcgen
  rename_i t rest h hpeek
  intro hground
  rw [← ‹_ = before›, h] at hground ⊢
  have hlength : 0 < operator.length := by
    by_contra hzero
    have hnil : operator.toList = [] := by simpa using hzero
    rw [at?, hnil] at hpeek
    cases hpeek
  have ht := ((Token.groundedAll_cons _ _).mp hground).1.stands
  refine ⟨begins_ofOperator ht hpeek, hground.drop _, List.drop_suffix _ _, ?_⟩
  rw [List.length_drop, List.length_cons]
  omega

/-- An operator that may be missing begins with the token it takes, if any. -/
@[spec high] theorem reads_op? (operator : String) (before : List Token) :
    Reads Fronted before (op? operator) := by
  unfold op?
  mvcgen <;> grind -linarith

/-- A keyword begins with the token it takes. -/
@[spec high] theorem takes_word (w : String) (before : List Token) :
    Takes Begins before (word w) := by
  unfold word
  mvcgen
  grind -linarith

/-- A keyword that may be missing begins with the token it takes, if any. -/
@[spec high] theorem reads_word? (w : String) (before : List Token) :
    Reads Fronted before (word? w) := by
  unfold word?
  mvcgen <;> grind -linarith

/-- A word, keyword or not, stands where its token does. -/
@[spec high] theorem takes_anyWord (before : List Token) : Takes Ident.Stands before anyWord := by
  unfold anyWord
  mvcgen
  grind -linarith

/-- An identifier stands where its token does. -/
@[spec high] theorem takes_identifier (before : List Token) :
    Takes Ident.Stands before identifier := by
  unfold identifier
  mvcgen
  grind -linarith

/-- A lifetime begins with the token it takes. -/
@[spec high] theorem takes_lifetime (before : List Token) : Takes Begins before lifetime := by
  unfold lifetime
  mvcgen
  grind -linarith

/-- A literal begins with the token it takes. -/
@[spec high] theorem takes_literal (before : List Token) :
    Takes (fun n : Node => n.Grounded ∧ Begins n.shown) before literal := by
  unfold literal
  mvcgen <;> grind -linarith

/-- The tokens of a group stand where they say, and so does its opening delimiter. -/
@[spec high] theorem takes_rawGroup (d : Delimiter) (before : List Token) :
    Takes (fun g : Position × List Token => (Token.group d g.1 []).Stands ∧ Token.GroundedAll g.2)
      before (rawGroup d) := by
  unfold rawGroup
  mvcgen
  grind -linarith

/-- The tokens of any group stand where they say, and so does its opening delimiter. -/
@[spec high] theorem takes_anyGroup (before : List Token) :
    Takes (fun g : Delimiter × Position × List Token => (Token.group g.1 g.2.1 []).Stands ∧
      Token.GroundedAll g.2.2) before anyGroup := by
  unfold anyGroup
  mvcgen
  grind -linarith

/-! ## Groups and lists -/

/-- What a parser yields as often as it yields something. -/
theorem reads_repeatUpTo {α : Type} {Q : α → Prop} {step : Parser (Option α)}
    (hs : ∀ before, Reads (fun o : Option α => ∀ a ∈ o, Q a) before step) (bound : Nat)
    (before : List Token) :
    Reads (fun as : List α => ∀ a ∈ as, Q a) before (repeatUpTo step bound) := by
  induction bound generalizing before with
  | zero =>
      unfold repeatUpTo
      mvcgen
  | succ bound ih =>
      unfold repeatUpTo
      mvcgen [hs, ih, -draws_repeatUpTo] <;> grind -linarith

/-- A repetition yields what its step does. -/
theorem reads_repeatAll {α : Type} {Q : α → Prop} {step : Parser (Option α)}
    (hs : ∀ before, Reads (fun o : Option α => ∀ a ∈ o, Q a) before step) (before : List Token) :
    Reads (fun as : List α => ∀ a ∈ as, Q a) before (repeatAll step) := by
  have hrepeat := reads_repeatUpTo hs
  unfold repeatAll
  mvcgen [hrepeat, -draws_repeatUpTo]

section

variable {α : Type} [Ground α]

/-- What is parsed in a group keeps to the source if its parser does. -/
@[spec high] theorem takes_within (d : Delimiter) {p : Parser α}
    (hp : ∀ before, Reads grounded before p) (before : List Token) :
    Takes (fun r : Position × α => Source.stands [d.opening] r.1 ∧ grounded r.2) before
      (within d p) := by
  unfold within
  mvcgen
  rename_i group a h _ _
  have hinner := run_of_triple (hp _) h rfl
  grind -linarith

/-- A repetition keeps to the source if its step does. -/
@[spec high] theorem reads_repeatAll_grounded {step : Parser (Option α)}
    (hs : ∀ before, Reads grounded before step) (before : List Token) :
    Reads grounded before (repeatAll step) :=
  reads_repeatAll hs before

/-- What is parsed until no token is left keeps to the source if each part does. -/
@[spec high] theorem reads_untilEnd {p : Parser α} (hp : ∀ before, Reads grounded before p)
    (before : List Token) : Reads grounded before (untilEnd p) := by
  unfold untilEnd
  mvcgen [hp] <;> grind -linarith

/-- A comma-separated list with a bound keeps to the source if its elements do. -/
@[spec high] theorem reads_commaListUpTo {p : Parser α} (hp : ∀ before, Reads grounded before p)
    (bound : Nat) (before : List Token) : Reads grounded before (commaListUpTo p bound) := by
  induction bound generalizing before with
  | zero =>
      unfold commaListUpTo
      mvcgen
  | succ bound ih =>
      unfold commaListUpTo
      mvcgen [hp, ih, -draws_commaListUpTo] <;> grind -linarith

/-- A comma-separated list keeps to the source if its elements do. -/
@[spec high] theorem reads_commaList {p : Parser α} (hp : ∀ before, Reads grounded before p)
    (before : List Token) : Reads grounded before (commaList p) := by
  unfold commaList
  mvcgen [hp]

end

/-! ## Macro calls and attributes -/

/-- The first segment of a path stands where it says. -/
@[simp, grind =]
def FirstStands : List (Ident × List Token) → Prop
  | [] => False
  | segment :: _ => segment.1.Stands

/-- The segments of a path without arguments begin with a name that stands where it says. -/
@[spec high] theorem takes_plainSegments (bound : Nat) (before : List Token) :
    Takes FirstStands before (plainSegments bound) := by
  induction bound generalizing before with
  | zero =>
      unfold plainSegments
      mvcgen
  | succ bound ih =>
      unfold plainSegments
      mvcgen [ih, -draws_plainSegments] <;> grind -linarith

/-- A path without arguments begins with a token and keeps to the source. -/
@[spec high] theorem takes_plainPath (before : List Token) :
    Takes (fun p : PathName × List Node => Node.GroundedAll p.2 ∧ Begins (Node.shownAll p.2))
      before plainPath := by
  unfold plainPath
  mvcgen
  rename_i segments _ _
  cases segments <;> grind -linarith

/-- What a goal of the grammar is given. -/
@[simp, grind =]
def Goal.Given : Goal → Prop
  | .climb lhs _ _ => grounded lhs
  | .expr _ | .unary _ | .leading | .type _ | .pattern | .alternatives | .block | .body
  | .item => True

/-- What a goal of the grammar yields.  Where an item begins does not matter. -/
@[simp, grind =]
def Goal.Result : Goal → Parsed → Prop
  | .item, e => e.node.Grounded
  | .climb _ _ _, e | .expr _, e | .unary _, e | .leading, e | .type _, e | .pattern, e
  | .alternatives, e | .block, e | .body, e => grounded e

/-- How many tokens a goal of the grammar takes at least, as far as that matters: an expression may
not be read without taking any. -/
@[simp, grind =]
def Goal.least : Goal → Nat
  | .expr _ | .unary _ | .block | .body => 1
  | .climb _ _ _ | .leading | .type _ | .pattern | .alternatives | .item => 0

/-- What the parser of a goal says about what it yields. -/
abbrev Serves (goal : Goal) (before : List Token) (p : Parser Parsed) : Prop :=
  ⦃fun ts => ⌜ts = before⌝⦄ p ⦃⇓? a ts => ⌜goal.Given → Token.GroundedAll before →
    goal.Result a ∧ Token.GroundedAll ts ∧ ts <:+ before ∧ ts.length + goal.least ≤ before.length⌝⦄

/-- A goal of which nothing is said may be read without taking a token. -/
theorem Serves.of_extends {goal : Goal} {before : List Token} {p : Parser Parsed}
    (h : Extends goal.Given goal.Result before p) (hleast : goal.least = 0) :
    Serves goal before p :=
  triple_of_run fun _ _ _ hts hrun hgiven hbefore => by
    obtain ⟨ha, hrest, hsuffix⟩ := run_of_triple h hrun hts hgiven hbefore
    have hlength := hsuffix.length_le
    exact ⟨ha, hrest, hsuffix, by omega⟩

/-- A goal that need not take a token is served by a parser that keeps to the source. -/
theorem Serves.of_reads {goal : Goal} {before : List Token} {p : Parser Parsed}
    (h : Reads goal.Result before p) (hleast : goal.least = 0) : Serves goal before p :=
  .of_extends (triple_of_run fun _ _ _ hts hrun _ => run_of_triple h hrun hts) hleast

/-- A goal is served by a parser that takes a token and keeps to the source. -/
theorem Serves.of_takes {goal : Goal} {before : List Token} {p : Parser Parsed}
    (h : Takes goal.Result before p) (hleast : goal.least ≤ 1) : Serves goal before p :=
  triple_of_run fun _ _ _ hts hrun _ hbefore => by
    obtain ⟨ha, hrest, hsuffix, hlength⟩ := run_of_triple h hrun hts hbefore
    exact ⟨ha, hrest, hsuffix, by omega⟩

variable {rules : Rules} (hr : ∀ goal before, Serves goal before (rules goal))

include hr

/-- The arguments of a macro call keep to the source if its body does. -/
theorem groundedAll_macroArguments {body : List Token} (hbody : Token.GroundedAll body) :
    Node.GroundedAll (macroArguments rules body) := by
  simp only [macroArguments]
  split
  · rename_i arguments h
    have hrun := run_of_triple (reads_untilEnd ?_ body) h rfl
    · grind -linarith
    · intro before
      mvcgen [hr] <;> grind -linarith
  · simp

/-- A macro call keeps to the source if its path begins with a token. -/
@[spec high] theorem extends_macroTail (path : List Node) {name : Parser (List Node)}
    (hname : ∀ before, Reads (fun ns : List Node => Fronted (Node.shownAll ns)) before name)
    (before : List Token) :
    Extends (Begins (Node.shownAll path)) (fun r : Parsed × Delimiter => grounded r.1) before
      (macroTail rules path name) := by
  unfold macroTail
  have hbody := fun body => @groundedAll_macroArguments _ _ hr body
  mvcgen [hname]
  grind -linarith

/-- The content of an attribute keeps to the source. -/
@[spec high] theorem reads_attributeContent (before : List Token) :
    Reads grounded before (attributeContent rules) := by
  unfold attributeContent
  mvcgen [hr] <;> grind -linarith

/-- An outer attribute begins with a token and keeps to the source. -/
@[spec high] theorem takes_outerAttribute (before : List Token) :
    Takes (fun n : Node => n.Grounded ∧ Begins n.shown) before (outerAttribute rules) := by
  unfold outerAttribute
  mvcgen [hr]
  grind -linarith

/-- Outer attributes keep to the source and begin with a token, if there are any. -/
@[spec high] theorem reads_outerAttributes (before : List Token) :
    Reads (fun ns : List Node => Node.GroundedAll ns ∧ Fronted (Node.shownAll ns)) before
      (outerAttributes rules) := by
  have heach : Reads (fun ns : List Node => ∀ n ∈ ns, n.Grounded ∧ Begins n.shown) before
      (outerAttributes rules) := by
    unfold outerAttributes
    refine reads_repeatAll (fun before => ?_) before
    mvcgen [hr] <;> grind -linarith
  refine heach.imp fun ns h => ?_
  exact ⟨(Node.groundedAll_iff ns).mpr fun n hn => (h n hn).1,
    Node.fronted_of_forall fun n hn => (h n hn).2⟩

/-- Inner attributes keep to the source. -/
@[spec high] theorem reads_innerAttributes (before : List Token) :
    Reads grounded before (innerAttributes rules) := by
  unfold innerAttributes
  mvcgen [hr] <;> grind -linarith

end

end SchemaLint.Code
