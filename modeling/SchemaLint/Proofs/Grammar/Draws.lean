import Mathlib
import SchemaLint.Proofs.Grammar.Weight

/-!
# Parsers draw what they yield from the tokens they take

A parser draws what it yields from the tokens it takes: by any tally, what it yields and what it
leaves together count no more than the tokens did before.  This is a triple of the program logic, so
that it is proved of each production by running through it once.  Macro calls need that the tally
suits them.  What is left of a run is linear arithmetic of natural numbers, so `grind` goes without
its search for ordered modules here and in the modules that follow.

* `Draws`: the triple, with the weight of what the parser was given.
* `draws_op` to `draws_commaList`: the building blocks.
* `Tally.Fits`: macro calls count no more than the group that holds their body.
* `draws_macroTail`, `draws_outerAttributes`, `draws_innerAttributes`: macro calls and attributes.
-/

set_option mvcgen.warning false

namespace SchemaLint.Code

open SchemaLint.Code.Parser Std.Do

section

variable [Tally]

/-- What a parser was given and the tokens before it count at most a number, and so do what it
yields and the tokens after it. -/
abbrev Draws {α : Type} [Weighed α] (owed n : Nat) (p : Parser α) : Prop :=
  ⦃fun ts => ⌜owed + weight ts ≤ n⌝⦄ p ⦃⇓? a ts => ⌜weight a + weight ts ≤ n⌝⦄

omit [Tally] in
/-- A triple says what holds of the outcome of a parse. -/
theorem run_of_triple {α : Type} {p : Parser α} {P : List Token → Prop}
    {Q : α → List Token → Prop} (h : ⦃fun ts => ⌜P ts⌝⦄ p ⦃⇓? a ts => ⌜Q a ts⌝⦄)
    {ts rest : List Token} {a : α} (hp : p.run ts = some (a, rest)) (hts : P ts) : Q a rest := by
  have hrun := h ts hts
  change (wp⟦p.run ts⟧ _).down at hrun
  rw [hp] at hrun
  exact hrun

/-- What a goal of the grammar is given counts. -/
@[simp, grind =]
def Goal.owed : Goal → Nat
  | .climb lhs _ _ => weight lhs
  | .expr _ | .unary _ | .leading | .type _ | .pattern | .alternatives | .block | .body | .item => 0

/-! ## Taking tokens -/

omit [Tally] in
/-- A parser that fails meets every specification. -/
@[spec] theorem failure_triple {α : Type}
    (Q : α → Assertion (.arg (List Token) (.except PUnit .pure))) :
    ⦃fun _ => ⌜True⌝⦄ (failure : Parser α) ⦃PostCond.mayThrow Q⦄ := by
  intro _ _
  exact trivial

/-- Looking ahead draws nothing. -/
@[spec] theorem draws_ahead (look : List Token → Bool) (n : Nat) : Draws 0 n (ahead look) := by
  mvcgen [ahead]

/-- Asking whether tokens are left draws nothing. -/
@[spec] theorem draws_atEnd (n : Nat) : Draws 0 n atEnd := by
  mvcgen [atEnd]

/-- A check draws nothing. -/
@[spec] theorem draws_require (condition : Bool) (n : Nat) : Draws 0 n (require condition) := by
  mvcgen [require]

/-- An operator that is read counts as much as its characters. -/
theorem op_triple (operator : String) (n : Nat) :
    ⦃fun ts => ⌜weight ts ≤ n⌝⦄ op operator
    ⦃⇓? a ts => ⌜weight a = operator.length * Tally.other ∧ weight a + weight ts ≤ n⌝⦄ := by
  mvcgen [op]
  rename_i t rest h hpeek
  have hmade := Token.namesAll_ofOperator t.place operator.toList
  have hread := Token.namesAll_of_peekOp hpeek
  rw [String.length_toList] at hmade hread
  grind -linarith

/-- An operator draws from the tokens it takes. -/
@[spec] theorem draws_op (operator : String) (n : Nat) : Draws 0 n (op operator) := by
  mvcgen [op_triple]
  grind -linarith

/-- An operator that may be missing draws from the tokens it takes. -/
@[spec] theorem draws_op? (operator : String) (n : Nat) : Draws 0 n (op? operator) := by
  mvcgen [op?] <;> grind -linarith

/-- A keyword draws from the token it takes. -/
@[spec] theorem draws_word (w : String) (n : Nat) : Draws 0 n (word w) := by
  mvcgen [word]
  grind -linarith

/-- A keyword that may be missing draws from the token it takes. -/
@[spec] theorem draws_word? (w : String) (n : Nat) : Draws 0 n (word? w) := by
  mvcgen [word?] <;> grind -linarith

/-- A word, keyword or not, draws from the token it takes. -/
@[spec] theorem draws_anyWord (n : Nat) : Draws 0 n anyWord := by
  mvcgen [anyWord]
  grind -linarith

/-- An identifier draws from the token it takes. -/
@[spec] theorem draws_identifier (n : Nat) : Draws 0 n identifier := by
  mvcgen [identifier]
  grind -linarith

/-- A lifetime draws from the tokens it takes. -/
@[spec] theorem draws_lifetime (n : Nat) : Draws 0 n lifetime := by
  mvcgen [lifetime]
  grind -linarith

/-- A literal draws from the token it takes. -/
@[spec] theorem draws_literal (n : Nat) : Draws 0 n literal := by
  mvcgen [literal] <;> grind -linarith

/-- The tokens of a group draw from the group. -/
@[spec] theorem draws_rawGroup (d : Delimiter) (n : Nat) : Draws 0 n (rawGroup d) := by
  mvcgen [rawGroup]
  grind -linarith

/-- A group counts by itself, too. -/
@[spec] theorem anyGroup_triple (n : Nat) :
    ⦃fun ts => ⌜weight ts ≤ n⌝⦄ anyGroup
    ⦃⇓? g ts => ⌜Tally.other + weight g + weight ts ≤ n⌝⦄ := by
  mvcgen [anyGroup]
  grind -linarith

/-- The tokens since an earlier state are kept as they stand, so only those ahead count. -/
@[spec] theorem since_triple (earlier : List Token) (n : Nat) :
    ⦃fun ts => ⌜weight ts ≤ n⌝⦄ since earlier ⦃⇓? _ ts => ⌜weight ts ≤ n⌝⦄ := by
  mvcgen [since]

/-! ## Groups and lists -/

section

variable {α : Type} [Weighed α]

/-- What is parsed in a group draws from the group if its parser draws from tokens. -/
@[spec] theorem draws_within (d : Delimiter) {p : Parser α} (hp : ∀ n, Draws 0 n p) (n : Nat) :
    Draws 0 n (within d p) := by
  mvcgen [within]
  rename_i group a h _ _
  have hinner := run_of_triple (hp _) h le_rfl
  grind -linarith

/-- A repetition with a bound draws from the tokens it takes if its step does. -/
@[spec] theorem draws_repeatUpTo {step : Parser (Option α)} (hs : ∀ n, Draws 0 n step)
    (bound n : Nat) : Draws 0 n (repeatUpTo step bound) := by
  induction bound generalizing n with
  | zero => mvcgen [repeatUpTo]
  | succ bound ih => mvcgen [repeatUpTo, hs, ih] <;> grind -linarith

/-- A repetition draws from the tokens it takes if its step does. -/
@[spec] theorem draws_repeatAll {step : Parser (Option α)} (hs : ∀ n, Draws 0 n step) (n : Nat) :
    Draws 0 n (repeatAll step) := by
  mvcgen [repeatAll, hs]

/-- What is parsed until no token is left draws from the tokens if each part does. -/
@[spec] theorem draws_untilEnd {p : Parser α} (hp : ∀ n, Draws 0 n p) (n : Nat) :
    Draws 0 n (untilEnd p) := by
  mvcgen [untilEnd, hp] <;> grind -linarith

/-- A comma-separated list with a bound draws from its tokens if its elements do. -/
@[spec] theorem draws_commaListUpTo {p : Parser α} (hp : ∀ n, Draws 0 n p) (bound n : Nat) :
    Draws 0 n (commaListUpTo p bound) := by
  induction bound generalizing n with
  | zero => mvcgen [commaListUpTo]
  | succ bound ih => mvcgen [commaListUpTo, hp, ih] <;> grind -linarith

/-- A comma-separated list draws from its tokens if its elements do. -/
@[spec] theorem draws_commaList {p : Parser α} (hp : ∀ n, Draws 0 n p) (n : Nat) :
    Draws 0 n (commaList p) := by
  mvcgen [commaList, hp]

end

/-! ## Macro calls and attributes -/

/-- The segments of a path without arguments draw from the tokens they take. -/
@[spec] theorem draws_plainSegments (bound n : Nat) : Draws 0 n (plainSegments bound) := by
  induction bound generalizing n with
  | zero => mvcgen [plainSegments]
  | succ bound ih => mvcgen [plainSegments, ih] <;> grind -linarith

/-- A path without arguments is that of a macro or an attribute, so its last name does not count. -/
@[spec] theorem plainPath_triple (n : Nat) :
    ⦃fun ts => ⌜weight ts ≤ n⌝⦄ plainPath ⦃⇓? path ts => ⌜weight path.2 + weight ts ≤ n⌝⦄ := by
  mvcgen [plainPath]
  grind -linarith

variable {rules : Rules} (hr : ∀ goal n, Draws goal.owed n (rules goal))

include hr

/-- The arguments of a macro call count no more than its body. -/
theorem namesAll_macroArguments (body : List Token) :
    Node.namesAll (macroArguments rules body) ≤ Token.namesAll body := by
  simp only [macroArguments]
  split
  · rename_i arguments h
    have hrun := run_of_triple (draws_untilEnd ?_ (0 + weight body)) h le_rfl
    · grind -linarith
    · intro n
      mvcgen [hr] <;> grind -linarith
  · simp

/-- With these parsers, a macro call counts no more than the group that its body stands in. -/
class Tally.Fits (rules : Rules) : Prop where
  /-- What is in front of the group does not matter. -/
  call_le : ∀ front d place body, Node.namesAll (macroArguments rules body) ≤ Token.namesAll body →
    (Node.macroCall (front ++ [.tokens [.group d place body]]) (macroArguments rules body)).names ≤
      (Token.group d place body).names

/-- A macro call draws from the tokens it takes and from the path before it. -/
@[spec] theorem draws_macroTail [Tally.Fits rules] (path : List Node) {name : Parser (List Node)}
    (hname : ∀ n, Draws 0 n name) (n : Nat) : Draws 0 n (macroTail rules path name) := by
  mvcgen [macroTail, hname]
  rename_i group _ _ _ _
  obtain ⟨d, place, body⟩ := group
  have hcall := fun front => Tally.Fits.call_le front d place body
    (namesAll_macroArguments hr body)
  grind -linarith

/-- The content of an attribute draws from the tokens it takes. -/
@[spec] theorem draws_attributeContent (n : Nat) : Draws 0 n (attributeContent rules) := by
  mvcgen [attributeContent, hr] <;> grind

/-- An outer attribute draws from the tokens it takes. -/
@[spec] theorem draws_outerAttribute (n : Nat) : Draws 0 n (outerAttribute rules) := by
  mvcgen [outerAttribute, hr]
  grind -linarith

/-- Outer attributes draw from the tokens they take. -/
@[spec] theorem draws_outerAttributes (n : Nat) : Draws 0 n (outerAttributes rules) := by
  mvcgen [outerAttributes, hr] <;> grind -linarith

/-- Inner attributes draw from the tokens they take. -/
@[spec] theorem draws_innerAttributes (n : Nat) : Draws 0 n (innerAttributes rules) := by
  mvcgen [innerAttributes, hr] <;> grind -linarith

end

instance [Marked] (rules : Rules) : Tally.Fits rules where
  call_le _ _ _ _ hbody := by
    rw [Node.names, Token.names, other_eq_zero, Nat.zero_add]
    exact hbody

end SchemaLint.Code
