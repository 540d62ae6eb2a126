import SchemaLint.FilePath

/-!
# Patterns of files to leave out

A pattern is matched against the whole text of a path.  `?` stands for any character, `*` for any
run of characters, `[…]` for one of several characters and `**`, as a whole component, for any
number of components.

* `ExcludePattern.parse`: reading a pattern.
* `ExcludePattern.matchParts`: matching a text.
-/

namespace SchemaLint

/-- What is wrong with a pattern. -/
inductive PatternFault
  /-- A bracket without a proper range. -/
  | invalidRange
  /-- More than two stars in a row. -/
  | tooManyStars
  /-- Two stars that are not a whole component. -/
  | partialComponent
deriving DecidableEq, Repr

/-- The wording of a fault. -/
def PatternFault.message : PatternFault → String
  | .invalidRange => "invalid range pattern"
  | .tooManyStars => "wildcards are either regular `*` or recursive `**`"
  | .partialComponent => "recursive wildcards must form a single path component"

/-- What is wrong with a pattern, and at which character. -/
structure PatternError where
  /-- Index of the character. -/
  position : Nat
  /-- What is wrong. -/
  fault : PatternFault
deriving DecidableEq, Repr

/-- The wording of a pattern error. -/
def PatternError.message (e : PatternError) : String :=
  "Pattern syntax error near position " ++ toString e.position ++ ": " ++ e.fault.message

namespace ExcludePattern

/-- A part of a pattern. -/
inductive Part
  /-- A given character. -/
  | char (c : Char)
  /-- Any character. -/
  | anyChar
  /-- Any run of characters. -/
  | anyRun
  /-- Any number of components. -/
  | anyPath
  /-- A character in one of some ranges, or in none of them. -/
  | oneOf (negated : Bool) (ranges : List (Char × Char))
deriving DecidableEq, Repr

/-! ## Reading -/

/-- The ranges between brackets. -/
def rangesOf : List Char → List (Char × Char)
  | a :: '-' :: b :: cs => (a, b) :: rangesOf cs
  | a :: cs => (a, a) :: rangesOf cs
  | [] => []

/-- The text of a range, which is not empty, and what follows its bracket. -/
def spanRange? : List Char → Option (List Char × List Char)
  | [] => none
  | first :: cs =>
    match Text.cutAt? [']'] cs with
    | some (more, rest) => some (first :: more, rest)
    | none => none

/-- The range after an opening bracket, and what follows it. -/
def range? : List Char → Option (Part × List Char)
  | '!' :: cs => (spanRange? cs).map fun (text, rest) => (.oneOf true (rangesOf text), rest)
  | cs => (spanRange? cs).map fun (text, rest) => (.oneOf false (rangesOf text), rest)

/-- What the stars at an index stand for, given how many there are and whether they begin a
component; and how many characters they take. -/
def starsAt (index count : Nat) (begins : Bool) (next : Option Char) :
    Except PatternError (Part × Nat) :=
  if count = 1 then .ok (.anyRun, 1)
  else if count = 2 then
    if begins then
      match next with
      | none => .ok (.anyPath, 2)
      | some '/' => .ok (.anyPath, 3)
      | some _ => .error ⟨index + 2, .partialComponent⟩
    else .error ⟨index - 1, .partialComponent⟩
  else .error ⟨index + 2, .tooManyStars⟩

/-- The parts of the rest of a pattern, given its index and the character before it.  The bound is
on the number of parts. -/
def partsFrom : Nat → Nat → Option Char → List Char → Except PatternError (List Part)
  | 0, _, _, _ => .ok []
  | _, _, _, [] => .ok []
  | bound + 1, index, before, c :: cs => do
    if c = '?' then
      return .anyChar :: (← partsFrom bound (index + 1) (some c) cs)
    else if c = '*' then
      let count := ((c :: cs).takeWhile (· == '*')).length
      let begins := before.isNone || before == some '/'
      let (part, taken) ← starsAt index count begins ((c :: cs)[count]?)
      let rest := (c :: cs).drop taken
      return part :: (← partsFrom bound (index + taken) ((c :: cs)[taken - 1]?) rest)
    else if c = '[' then
      match range? cs with
      | some (part, rest) =>
        let taken := (c :: cs).length - rest.length
        return part :: (← partsFrom bound (index + taken) (some ']') rest)
      | none => throw ⟨index, .invalidRange⟩
    else return .char c :: (← partsFrom bound (index + 1) (some c) cs)

/-- The parts of a pattern. -/
def parse (pattern : String) : Except PatternError (List Part) :=
  partsFrom pattern.length 0 none pattern.toList

/-! ## Matching -/

/-- Whether some tail of a text, the text itself included, satisfies a predicate. -/
def anyTail (p : List Char → Bool) : List Char → Bool
  | [] => p []
  | c :: cs => p (c :: cs) || anyTail p cs

/-- Whether the end of a text, or what follows one of its slashes, satisfies a predicate. -/
def anyComponentTail (p : List Char → Bool) : List Char → Bool
  | [] => p []
  | c :: cs => (c == '/' && p cs) || anyComponentTail p cs

/-- Whether a character is in one of some ranges. -/
def inRanges (ranges : List (Char × Char)) (c : Char) : Bool :=
  ranges.any fun (a, b) => a ≤ c && c ≤ b

/-- Whether parts match a text. -/
def matchParts : List Part → List Char → Bool
  | [], text => text.isEmpty
  | .anyRun :: parts, text => anyTail (matchParts parts) text
  | .anyPath :: parts, text => matchParts parts text || anyComponentTail (matchParts parts) text
  | .char _ :: _, [] => false
  | .char a :: parts, c :: text => c == a && matchParts parts text
  | .anyChar :: _, [] => false
  | .anyChar :: parts, _ :: text => matchParts parts text
  | .oneOf _ _ :: _, [] => false
  | .oneOf negated ranges :: parts, c :: text =>
    (inRanges ranges c != negated) && matchParts parts text

end ExcludePattern

end SchemaLint
