import SchemaLint.Comment
import SchemaLint.Text.Split

/-!
# Suppression directives

A comment that begins with the marker is a directive: it names a rule, or every rule, and may
say why.  It applies to what is anchored on its own line or on the line after it.  A comment that
begins with the marker but names no usable rule is malformed.

* `Directive.parse?`: what a comment says, if it begins with the marker.
* `Suppressions.scan`: the directives of a source text.
* `Suppressions.isSuppressedAt`: whether a rule is silenced on a line.
-/

namespace SchemaLint

/-- A well-formed suppression directive. -/
structure Directive where
  /-- Name or code of the suppressed rule, or the wildcard. -/
  rule : String
  /-- Line the directive applies from: the last line of the comment. -/
  line : Nat
  /-- Place of the comment. -/
  position : Position
  /-- Free text after the rule. -/
  justification : Option String
deriving DecidableEq, Repr

/-- What is wrong with a malformed directive. -/
inductive DirectiveFault
  /-- Nothing follows the marker. -/
  | missingRule
  /-- The word after the marker cannot name a rule. -/
  | invalidRule (word : String)
deriving DecidableEq, Repr

/-- The wording of a fault. -/
def DirectiveFault.message : DirectiveFault → String
  | .missingRule => "missing rule id"
  | .invalidRule word => "invalid rule id `" ++ word ++ "`"

/-- A comment that begins with the marker but is not a directive. -/
structure MalformedDirective where
  /-- Place of the comment. -/
  position : Position
  /-- What is wrong with it. -/
  fault : DirectiveFault
deriving DecidableEq, Repr

namespace Directive

/-- The rule word that stands for every rule. -/
def wildcard : String := "*"

/-- Whether the directive names the given rule. -/
def covers (d : Directive) (rule : String) : Bool :=
  d.rule == wildcard || d.rule == rule

/-- Whether the directive applies to what is anchored on the given line. -/
def isAdjacentTo (d : Directive) (line : Nat) : Bool :=
  0 < line && (line == d.line || line == d.line + 1)

/-- Whether a word can name a rule. -/
def isRuleWord (word : String) : Bool :=
  word == wildcard || word.toList.all fun c => c.isAlphanum || c == '-' || c == '_'

/-- The text of a comment without the mark of a doc comment and without leading blanks. -/
def body (comment : Comment) : List Char :=
  let isDocMark (c : Char) : Bool :=
    c == '!' || c == (match comment.kind with | .line => '/' | .block => '*')
  match comment.text.toList with
  | [] => []
  | c :: cs => Text.trimStart (if isDocMark c then cs else c :: cs)

/-- The text after the marker, if the comment begins with it as a whole word. -/
def afterMarker? (marker : String) (comment : Comment) : Option (List Char) :=
  match Text.dropLeading? marker.toList (body comment) with
  | none => none
  | some [] => some []
  | some (c :: cs) => if Text.isBlank c then some (c :: cs) else none

/-- What the words after the marker say. -/
def ofWords (comment : Comment) : List String → MalformedDirective ⊕ Directive
  | [] => .inl ⟨comment.position, .missingRule⟩
  | rule :: rest =>
    if isRuleWord rule then
      .inr {
        rule := rule
        line := comment.endLine
        position := comment.position
        justification := if rest.isEmpty then none else some (Text.join " " rest) }
    else .inl ⟨comment.position, .invalidRule rule⟩

/-- What a comment says, if it begins with the marker. -/
def parse? (marker : String) (comment : Comment) : Option (MalformedDirective ⊕ Directive) :=
  (afterMarker? marker comment).map fun rest => ofWords comment (Text.words rest)

end Directive

/-- The directives of one source text. -/
structure Suppressions where
  /-- Well-formed directives in source order. -/
  directives : List Directive
  /-- Malformed directives in source order. -/
  malformed : List MalformedDirective
deriving DecidableEq, Repr, Inhabited

namespace Suppressions

/-- The directives among the given comments. -/
def ofComments (marker : String) (cs : List Comment) : Suppressions :=
  let parsed := cs.filterMap (Directive.parse? marker)
  ⟨parsed.filterMap Sum.getRight?, parsed.filterMap Sum.getLeft?⟩

/-- The directives of a source text. -/
def scan (marker : String) (source : String) : Suppressions :=
  ofComments marker (comments source)

/-- Whether a rule is silenced for what is anchored on the given line. -/
def isSuppressedAt (s : Suppressions) (rule : String) (line : Nat) : Bool :=
  s.directives.any fun d => d.isAdjacentTo line && d.covers rule

end Suppressions

end SchemaLint
