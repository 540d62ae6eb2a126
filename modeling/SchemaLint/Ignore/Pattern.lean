import SchemaLint.Text.Split

/-!
# Patterns of ignore files

A pattern is matched against the bytes of a path relative to the directory of its ignore file.
`?` stands for one byte and `*` for a run of bytes other than a slash, `**` as a whole component
for any number of components, `[…]` for one byte of several, and `{…}` for one of several
alternatives.

* `IgnorePattern.parse?`: reading a pattern.
* `IgnorePattern.isMatch`: matching a path.
-/

namespace SchemaLint.IgnorePattern

/-- A part of a pattern. -/
inductive Part
  /-- A given character. -/
  | char (c : Char)
  /-- One byte other than a slash. -/
  | anyByte
  /-- A run of bytes other than slashes. -/
  | anyRun
  /-- At the start: any number of components. -/
  | anyFront
  /-- At the end: a slash and anything below it. -/
  | anyBelow
  /-- In the middle: a slash, or any number of components between two. -/
  | anyBetween
  /-- A byte in one of some ranges, or in none of them. -/
  | oneOf (negated : Bool) (ranges : List (Char × Char))
  /-- One of several alternatives. -/
  | alternatives (branches : List (List Part))
deriving Inhabited

/-! ## Reading -/

/-- What is read so far. -/
structure Draft where
  /-- The parts of the current branch, the latest first. -/
  parts : List Part
  /-- The open groups of alternatives, the innermost first: the parts before the group and its
  finished branches, each with the latest first. -/
  groups : List (List Part × List (List Part))
  /-- The character before. -/
  before : Option Char
  /-- Whether a bracket was found that no other closes. -/
  openBracket : Bool

/-- A draft with one more part. -/
def Draft.push (d : Draft) (p : Part) : Draft :=
  { d with parts := p :: d.parts }

/-- The ranges between brackets, the latest first, and what follows; nothing if the bracket is not
closed or a range is reversed. -/
inductive ClassRead
  /-- The ranges and what follows the closing bracket. -/
  | closed (ranges : List (Char × Char)) (rest : List Char)
  /-- No bracket closes the class. -/
  | unclosed
  /-- A range is reversed. -/
  | reversed
deriving Repr

/-- The ranges of a class, given those read so far, whether nothing was read, and whether the last
one waits for its end. -/
def classFrom (ranges : List (Char × Char)) (first waiting : Bool) : List Char → ClassRead
  | [] => .unclosed
  | ']' :: cs =>
    if first then classFrom ((']', ']') :: ranges) false waiting cs
    else .closed (if waiting then ('-', '-') :: ranges else ranges) cs
  | c :: cs =>
    if c = '-' ∧ ¬ first ∧ ¬ waiting then classFrom ranges false true cs
    else if waiting then
      match ranges with
      | (a, _) :: others =>
        if c < a then .reversed else classFrom ((a, c) :: others) false false cs
      | [] => .reversed
    else classFrom ((c, c) :: ranges) false false cs

/-- What two stars stand for, given the draft and what follows them: the draft after them and the
text that is left. -/
def doubleStar (d : Draft) (rest : List Char) : Draft × List Char :=
  let plain : Draft × List Char :=
    ({ d with parts := .anyRun :: .anyRun :: d.parts, before := some '*' }, rest)
  let inGroup := !d.groups.isEmpty
  if d.parts.isEmpty then
    match rest with
    | [] => ({ d with parts := [.anyFront], before := some '*' }, [])
    | '/' :: rest => ({ d with parts := [.anyFront], before := some '/' }, rest)
    | _ => plain
  else if d.before == some '/' ||
      (inGroup && (d.before == some ',' || d.before == some '\x7b')) then
    let finish (isEnd : Bool) : List Part :=
      match d.parts with
      | .anyFront :: others => .anyFront :: others
      | .anyBelow :: others => .anyBelow :: others
      | _ :: others => (if isEnd then .anyBelow else .anyBetween) :: others
      | [] => []
    match rest with
    | [] => ({ d with parts := finish true, before := some '*' }, [])
    | '/' :: rest => ({ d with parts := finish false, before := some '/' }, rest)
    | c :: cs =>
      if inGroup && (c == ',' || c == '\x7d') then
        ({ d with parts := finish true, before := some '*' }, c :: cs)
      else plain
  else plain

/-- The parts of the rest of a pattern.  The bound is on the number of steps. -/
def readFrom : Nat → Draft → List Char → Option (List Part)
  | 0, d, _ => if d.groups.isEmpty then some d.parts.reverse else none
  | _, d, [] => if d.groups.isEmpty then some d.parts.reverse else none
  | bound + 1, d, c :: cs =>
    let after (d : Draft) (c : Char) : Draft := { d with before := some c }
    match c with
    | '?' => readFrom bound (after (d.push .anyByte) c) cs
    | '*' =>
      match cs with
      | '*' :: rest =>
        let (d, rest) := doubleStar d rest
        readFrom bound d rest
      | _ => readFrom bound (after (d.push .anyRun) c) cs
    | '[' =>
      if d.openBracket then readFrom bound (after (d.push (.char c)) c) cs
      else
        let (negated, inner) := match cs with
          | '!' :: rest => (true, rest)
          | '^' :: rest => (true, rest)
          | _ => (false, cs)
        match classFrom [] true false inner with
        | .closed ranges rest => readFrom bound (after (d.push (.oneOf negated ranges)) ']') rest
        | .unclosed =>
          readFrom bound { after (d.push (.char c)) c with openBracket := true } cs
        | .reversed => none
    | '\x7b' =>
      readFrom bound
        { d with parts := [], groups := (d.parts, []) :: d.groups, before := some c } cs
    | '\x7d' =>
      match d.groups with
      | [] => none
      | (outer, branches) :: groups =>
        let group := Part.alternatives ((d.parts :: branches).reverse.map List.reverse)
        readFrom bound { d with parts := group :: outer, groups := groups, before := some c } cs
    | ',' =>
      match d.groups with
      | [] => readFrom bound (after (d.push (.char c)) c) cs
      | (outer, branches) :: groups =>
        let groups := (outer, d.parts :: branches) :: groups
        readFrom bound { d with parts := [], groups := groups, before := some c } cs
    | '\\' =>
      match cs with
      | [] => none
      | e :: rest => readFrom bound (after (d.push (.char e)) e) rest
    | _ => readFrom bound (after (d.push (.char c)) c) cs

/-- The parts of a pattern, if it is well formed. -/
def parts? (pattern : String) : Option (List Part) :=
  readFrom pattern.length ⟨[], [], none, false⟩ pattern.toList

/-! ## Bytes -/

/-- A part of a pattern without alternatives, over bytes. -/
inductive Atom
  /-- A given byte. -/
  | byte (b : UInt8)
  /-- One byte other than a slash. -/
  | anyByte
  /-- A run of bytes other than slashes. -/
  | anyRun
  /-- At the start: any number of components. -/
  | anyFront
  /-- At the end: a slash and anything below it. -/
  | anyBelow
  /-- In the middle: a slash, or any number of components between two. -/
  | anyBetween
  /-- A byte in one of some ranges, or in none of them. -/
  | oneOf (negated : Bool) (ranges : List (UInt8 × UInt8))
deriving DecidableEq, Repr

/-- The slash as a byte. -/
def slash : UInt8 := 0x2f

/-- The bytes of a text. -/
def bytesOf (cs : List Char) : List UInt8 :=
  cs.flatMap String.utf8EncodeChar

/-- The ranges of bytes that a range of characters is written as. -/
def byteRanges : Char × Char → List (UInt8 × UInt8)
  | (a, b) =>
    let single (x : UInt8) : UInt8 × UInt8 := (x, x)
    let front := String.utf8EncodeChar a
    let back := String.utf8EncodeChar b
    if a = b then front.map single
    else
      match front.getLast?, back with
      | some low, high :: more => front.dropLast.map single ++ [(low, high)] ++ more.map single
      | _, _ => []

mutual

/-- The ways to read a part. -/
def expandPart : Part → List (List Atom)
  | .char c => [(String.utf8EncodeChar c).map Atom.byte]
  | .anyByte => [[.anyByte]]
  | .anyRun => [[.anyRun]]
  | .anyFront => [[.anyFront]]
  | .anyBelow => [[.anyBelow]]
  | .anyBetween => [[.anyBetween]]
  | .oneOf negated ranges => [[.oneOf negated (ranges.flatMap byteRanges)]]
  | .alternatives branches =>
    match expandBranches branches with
    | [] => [[]]
    | ways => ways

/-- The ways to read parts in a row. -/
def expandAll : List Part → List (List Atom)
  | [] => [[]]
  | p :: ps =>
    let rest := expandAll ps
    (expandPart p).flatMap fun way => rest.map (way ++ ·)

/-- The ways to read one of several branches; an empty branch counts for nothing. -/
def expandBranches : List (List Part) → List (List Atom)
  | [] => []
  | b :: bs =>
    let ways := expandAll b
    (if ways = [[]] then [] else ways) ++ expandBranches bs

end

/-! ## Matching -/

/-- Whether some tail of a text satisfies a predicate, the tails up to the first slash only. -/
def anyTailInComponent (p : List UInt8 → Bool) : List UInt8 → Bool
  | [] => p []
  | b :: bs => p (b :: bs) || (b != slash && anyTailInComponent p bs)

/-- Whether some tail of a text satisfies a predicate. -/
def anyTail (p : List UInt8 → Bool) : List UInt8 → Bool
  | [] => p []
  | b :: bs => p (b :: bs) || anyTail p bs

/-- Whether what follows one of the slashes of a text satisfies a predicate. -/
def anyAfterSlash (p : List UInt8 → Bool) : List UInt8 → Bool
  | [] => false
  | b :: bs => (b == slash && p bs) || anyAfterSlash p bs

/-- Whether a byte passes a test on one byte. -/
def Atom.accepts (b : UInt8) : Atom → Bool
  | .byte a => b == a
  | .anyByte => b != slash
  | .oneOf negated ranges => (ranges.any fun (low, high) => low ≤ b && b ≤ high) != negated
  | _ => false

/-- Whether atoms match bytes. -/
def matchAtoms : List Atom → List UInt8 → Bool
  | [], bs => bs.isEmpty
  | .anyRun :: atoms, bs => anyTailInComponent (matchAtoms atoms) bs
  | .anyFront :: atoms, bs => matchAtoms atoms bs || anyAfterSlash (matchAtoms atoms) bs
  | .anyBelow :: atoms, bs =>
    match bs with
    | b :: rest => b == slash && anyTail (matchAtoms atoms) rest
    | [] => false
  | .anyBetween :: atoms, bs =>
    match bs with
    | b :: rest => b == slash && (matchAtoms atoms rest || anyAfterSlash (matchAtoms atoms) rest)
    | [] => false
  | atom :: atoms, bs =>
    match bs with
    | b :: rest => atom.accepts b && matchAtoms atoms rest
    | [] => false

/-- The ways to read a pattern, if it is well formed.  Two stars alone match everything. -/
def parse? (pattern : String) : Option (List (List Atom)) :=
  (parts? pattern).map fun parts =>
    match parts with
    | [.anyFront] => [[.anyFront, .anyRun]]
    | parts => expandAll parts

/-- Whether one of the ways to read a pattern matches a path. -/
def isMatch (ways : List (List Atom)) (path : String) : Bool :=
  let bytes := bytesOf path.toList
  ways.any fun way => matchAtoms way bytes

end SchemaLint.IgnorePattern
