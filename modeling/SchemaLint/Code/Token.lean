import SchemaLint.Position
import SchemaLint.Text.Split

/-!
# Token trees

Source code as the parser sees it: identifiers, punctuation, literals, lifetimes, and groups of
these between matching delimiters.  A punctuation character knows whether it is joint with the
one that follows it, which is how operators of several characters are told apart.

* `Token`: a token tree.
* `Token.renderAll`: token trees written out, one blank between tokens.
* `Token.countAll`: how many tokens there are at any depth.
-/

namespace SchemaLint.Code

/-- The brackets of a group. -/
inductive Delimiter
  /-- Round brackets. -/
  | paren
  /-- Square brackets. -/
  | bracket
  /-- Curly brackets. -/
  | brace
deriving DecidableEq, Repr, Inhabited

/-- A token tree. -/
inductive Token
  /-- An identifier or keyword as written, raw mark included. -/
  | ident (name : String) (place : Position)
  /-- A punctuation character, and whether it is joint with the next one. -/
  | punct (char : Char) (joint : Bool) (place : Position)
  /-- A literal as written. -/
  | literal (text : String) (place : Position)
  /-- A lifetime as written, quote included. -/
  | lifetime (name : String) (place : Position)
  /-- A group between delimiters. -/
  | group (delimiter : Delimiter) (place : Position) (inner : List Token)
deriving Inhabited

namespace Token

/-- Where a token begins. -/
def place : Token → Position
  | .ident _ p => p
  | .punct _ _ p => p
  | .literal _ p => p
  | .lifetime _ p => p
  | .group _ p _ => p

/-- Whether no blank stands between the token and the next one. -/
def isJoint : Token → Bool
  | .punct _ joint _ => joint
  | _ => false

mutual

/-- A token written out.  Round and square brackets stand close to their content, curly ones
do not. -/
def render : Token → String
  | .ident name _ => name
  | .punct c _ _ => String.singleton c
  | .literal text _ => text
  | .lifetime name _ => name
  | .group .paren _ inner => "(" ++ renderAll inner ++ ")"
  | .group .bracket _ inner => "[" ++ renderAll inner ++ "]"
  | .group .brace _ inner =>
    "\x7b " ++ renderAll inner ++ (if inner.isEmpty then "" else " ") ++ "\x7d"

/-- Tokens written out, one blank between those that are not joint. -/
def renderAll : List Token → String
  | [] => ""
  | [t] => render t
  | t :: rest => render t ++ (if t.isJoint then "" else " ") ++ renderAll rest

end

mutual

/-- Number of tokens in a token tree. -/
def count : Token → Nat
  | .group _ _ inner => countAll inner + 1
  | _ => 1

/-- Number of tokens in a list of token trees. -/
def countAll : List Token → Nat
  | [] => 0
  | t :: rest => count t + countAll rest

end

/-- The tokens of a group with others in front of what is inside it. -/
def insideFront (ts : List Token) : List Token → List Token
  | [.group d place inner] => [.group d place (ts ++ inner)]
  | us => ts ++ us

/-- The characters of an operator as punctuation, joint up to the last one. -/
def ofOperator (place : Position) : List Char → List Token
  | [] => []
  | [c] => [.punct c false place]
  | c :: cs => .punct c true place :: ofOperator place cs

end Token

/-- An identifier at its place. -/
structure Ident where
  /-- The name as written, raw mark included. -/
  name : String
  /-- Where it stands. -/
  place : Position
deriving DecidableEq, Repr, Inhabited

namespace Ident

/-- The name without a raw mark. -/
def plain (i : Ident) : String :=
  match Text.dropLeading? ['r', '#'] i.name.toList with
  | some rest => String.ofList rest
  | none => i.name

/-- The token of an identifier. -/
def token (i : Ident) : Token :=
  .ident i.name i.place

end Ident

end SchemaLint.Code
