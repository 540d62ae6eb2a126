import SchemaLint.Code.Literal
import SchemaLint.Code.Token

/-!
# From text to token trees

A source text is read into token trees from the left.  White space and ordinary comments are
dropped; a doc comment is the attribute it abbreviates.  A text whose brackets do not match, or
which holds something that begins no token, has no token trees.

* `Step.next`: the first thing a text begins with.
* `Forest.ofText?`: the token trees of a text.
-/

namespace SchemaLint.Code

/-! ## Comments and white space -/

/-- The text up to the end of the line, without the line end and a carriage return before it. -/
def restOfLine : List Char → Taken
  | [] => ([], [])
  | '\n' :: cs => ([], '\n' :: cs)
  | '\r' :: '\n' :: cs => ([], '\r' :: '\n' :: cs)
  | c :: cs => (restOfLine cs).after [c]

/-- The body of a block comment with `depth` further comments open, closing mark included. -/
def blockBody? : Nat → List Char → Option Taken
  | _, [] => none
  | depth, '/' :: '*' :: cs => (blockBody? (depth + 1) cs).map (Taken.after ['/', '*'])
  | 0, '*' :: '/' :: cs => some (['*', '/'], cs)
  | depth + 1, '*' :: '/' :: cs => (blockBody? depth cs).map (Taken.after ['*', '/'])
  | depth, c :: cs => (blockBody? depth cs).map (Taken.after [c])

/-- White space between tokens: blanks and the two directional marks. -/
def isSpacing (c : Char) : Bool :=
  Text.isBlank c || c.toNat == 0x200e || c.toNat == 0x200f

/-- Whether text in a doc comment holds a carriage return that ends no line. -/
def hasBareReturn : List Char → Bool
  | [] => false
  | '\r' :: '\n' :: cs => hasBareReturn cs
  | '\r' :: _ => true
  | _ :: cs => hasBareReturn cs

/-- What stands between tokens: an ordinary comment or white space. -/
def trivia? : List Char → Option Taken
  | '/' :: '/' :: '/' :: '/' :: cs => some ((restOfLine cs).after ['/', '/', '/', '/'])
  | '/' :: '/' :: '/' :: _ => none
  | '/' :: '/' :: '!' :: _ => none
  | '/' :: '/' :: cs => some ((restOfLine cs).after ['/', '/'])
  | '/' :: '*' :: '*' :: '/' :: cs => some (['/', '*', '*', '/'], cs)
  | '/' :: '*' :: '*' :: '*' :: cs =>
    (blockBody? 0 ('*' :: '*' :: cs)).map (Taken.after ['/', '*'])
  | '/' :: '*' :: '*' :: _ => none
  | '/' :: '*' :: '!' :: _ => none
  | '/' :: '*' :: cs => (blockBody? 0 cs).map (Taken.after ['/', '*'])
  | c :: cs => if isSpacing c then some ([c], cs) else none
  | [] => none

/-- A text without the trivia at its start; the bound is at least its length. -/
def dropTrivia : Nat → List Char → List Char
  | 0, cs => cs
  | bound + 1, cs =>
    match trivia? cs with
    | some (_, rest) => dropTrivia bound rest
    | none => cs

/-- A doc comment. -/
structure DocComment where
  /-- Whether it documents what it stands in. -/
  inner : Bool
  /-- Its text. -/
  text : List Char
  /-- All its characters and the text after it. -/
  taken : Taken

/-- The body of a block comment without its closing mark. -/
def blockText (body : List Char) : List Char :=
  body.take (body.length - 2)

/-- The doc comment a text begins with. -/
def docComment? (cs : List Char) : Option DocComment :=
  let found : Option DocComment :=
    match cs with
    | '/' :: '/' :: '!' :: rest =>
      let line := restOfLine rest
      some ⟨true, line.1, line.after ['/', '/', '!']⟩
    | '/' :: '*' :: '!' :: rest =>
      (blockBody? 0 ('!' :: rest)).map fun body =>
        ⟨true, blockText (body.1.drop 1), body.after ['/', '*']⟩
    | '/' :: '/' :: '/' :: '/' :: _ => none
    | '/' :: '/' :: '/' :: rest =>
      let line := restOfLine rest
      some ⟨false, line.1, line.after ['/', '/', '/']⟩
    | '/' :: '*' :: '*' :: '*' :: _ => none
    | '/' :: '*' :: '*' :: rest =>
      (blockBody? 0 ('*' :: rest)).map fun body =>
        ⟨false, blockText (body.1.drop 1), body.after ['/', '*']⟩
    | _ => none
  found.filter fun doc => !hasBareReturn doc.text

/-- Whether a character is written as an escape in the literal of a doc comment. -/
def needsEscape (c : Char) : Bool :=
  let code := c.toNat
  code < 0x20 || (0x7f ≤ code && code ≤ 0xa0) || code == 0xad || (Text.isBlank c && c != ' ') ||
    (0x200b ≤ code && code ≤ 0x200f) || (0x202a ≤ code && code ≤ 0x202e) ||
    (0x2060 ≤ code && code ≤ 0x206f) || code == 0xfeff || (0xe000 ≤ code && code ≤ 0xf8ff) ||
    0xe0000 ≤ code || (0x80 ≤ code && Text.inRanges Text.graphemeExtendRanges code)

/-- The characters of a string literal that stands for the given text. -/
def escapeText : List Char → List Char
  | [] => []
  | c :: cs =>
    let written : List Char :=
      match c with
      | '\t' => ['\\', 't']
      | '\r' => ['\\', 'r']
      | '\n' => ['\\', 'n']
      | '"' => ['\\', '"']
      | '\\' => ['\\', '\\']
      | _ =>
        if c.toNat == 0 then
          match cs with
          | d :: _ => if '0' ≤ d && d ≤ '7' then ['\\', 'x', '0', '0'] else ['\\', '0']
          | [] => ['\\', '0']
        else if needsEscape c then
          ['\\', 'u', '\x7b'] ++ Nat.toDigits 16 c.toNat ++ ['\x7d']
        else [c]
    written ++ escapeText cs

/-- The attribute a doc comment abbreviates. -/
def DocComment.tokens (doc : DocComment) (place : Position) : List Token :=
  let literal := String.ofList ('"' :: escapeText doc.text ++ ['"'])
  let body := Token.group .bracket place
    [.ident "doc" place, .punct '=' false place, .literal literal place]
  if doc.inner then [.punct '#' false place, .punct '!' false place, body]
  else [.punct '#' false place, body]

/-! ## Leaves -/

/-- Characters that can be punctuation. -/
def isPunctuation (c : Char) : Bool :=
  "~!@#$%^&*-=+|;:,<.>/?'".toList.contains c

/-- Whether a text begins with punctuation and not with a comment. -/
def beginsPunctuation : List Char → Bool
  | '/' :: '/' :: _ => false
  | '/' :: '*' :: _ => false
  | c :: _ => isPunctuation c
  | [] => false

/-- An identifier with or without raw mark. -/
def anyIdentifier? : List Char → Option Taken
  | 'r' :: '#' :: cs =>
    match identifier? cs with
    | some (name, rest) =>
      if ["_", "super", "self", "Self", "crate"].contains (String.ofList name) then none
      else some ('r' :: '#' :: name, rest)
    | none => none
  | cs => identifier? cs

/-- Whether a text begins like a string or byte literal rather than an identifier. -/
def beginsQuoted (cs : List Char) : Bool :=
  ["r\"", "r#\"", "r##", "b\"", "b'", "br\"", "br#", "c\"", "cr\"", "cr#"].any fun mark =>
    mark.toList.isPrefixOf cs

/-- The leaf token a text begins with. -/
def leaf? (place : Position) (cs : List Char) : Option (Token × Taken) :=
  match literal? cs with
  | some taken => some (.literal (String.ofList taken.1) place, taken)
  | none =>
    if beginsPunctuation cs then
      match cs with
      | '\'' :: rest =>
        match anyIdentifier? rest with
        | some (name, after) =>
          let isRaw := ['r', '#'].isPrefixOf rest
          if after.head? == some '\'' || (after.head? == some '#' && !isRaw) then none
          else some (.lifetime (String.ofList ('\'' :: name)) place, '\'' :: name, after)
        | none => none
      | c :: rest => some (.punct c (beginsPunctuation rest) place, [c], rest)
      | [] => none
    else if beginsQuoted cs then none
    else (anyIdentifier? cs).map fun taken => (.ident (String.ofList taken.1) place, taken)

/-! ## Trees -/

/-- The first thing a text begins with. -/
inductive Step
  /-- The text is empty. -/
  | finished
  /-- Tokens, or none for trivia. -/
  | tokens (ts : List Token) (taken rest : List Char)
  /-- An opening delimiter. -/
  | opening (d : Delimiter) (c : Char) (rest : List Char)
  /-- A closing delimiter. -/
  | closing (d : Delimiter) (c : Char) (rest : List Char)
  /-- Nothing that begins a token. -/
  | fail

/-- The first thing a text at a given place begins with. -/
def Step.next (place : Position) (cs : List Char) : Step :=
  match trivia? cs with
  | some (taken, rest) => .tokens [] taken rest
  | none =>
    match docComment? cs with
    | some doc => .tokens (doc.tokens place) doc.taken.1 doc.taken.2
    | none =>
      match cs with
      | [] => .finished
      | '(' :: rest => .opening .paren '(' rest
      | '[' :: rest => .opening .bracket '[' rest
      | '\x7b' :: rest => .opening .brace '\x7b' rest
      | ')' :: rest => .closing .paren ')' rest
      | ']' :: rest => .closing .bracket ']' rest
      | '\x7d' :: rest => .closing .brace '\x7d' rest
      | _ =>
        match leaf? place cs with
        | some (t, taken, rest) => .tokens [t] taken rest
        | none => .fail

/-- A group that is still open: its delimiter, its place and the tokens before it, reversed. -/
structure OpenGroup where
  /-- The delimiter to be closed. -/
  delimiter : Delimiter
  /-- Where it was opened. -/
  place : Position
  /-- The tokens before the group, reversed. -/
  before : List Token

namespace Forest

/-- Token trees of a text given the open groups and the tokens read in the innermost one,
reversed.  Every step takes a character, so the bound is never the reason to stop when it exceeds
the length of the text. -/
def build? : Nat → Position → List OpenGroup → List Token → List Char → Option (List Token)
  | 0, _, _, _, _ => none
  | bound + 1, place, stack, current, cs =>
    match Step.next place cs with
    | .finished => if stack.isEmpty then some current.reverse else none
    | .tokens ts taken rest =>
      build? bound (place.advanceAll taken) stack (ts.reverse ++ current) rest
    | .opening d c rest => build? bound (place.advance c) (⟨d, place, current⟩ :: stack) [] rest
    | .closing d c rest =>
      match stack with
      | [] => none
      | frame :: outer =>
        if frame.delimiter = d then
          build? bound (place.advance c) outer
            (.group d frame.place current.reverse :: frame.before) rest
        else none
    | .fail => none

/-- The token trees of a text that begins at a given place. -/
def ofText? (place : Position) (cs : List Char) : Option (List Token) :=
  build? (cs.length + 1) place [] [] cs

end Forest

/-- The byte order mark. -/
def byteOrderMark : Char := Char.ofNat 0xfeff

/-- A text without a byte order mark at its start. -/
def dropByteOrderMark : List Char → List Char
  | c :: cs => if c == byteOrderMark then cs else c :: cs
  | [] => []

/-- The text of a file that holds code, with the place where it begins: the byte order mark and
a first line that names an interpreter are left out. -/
def codeOfFile (cs : List Char) : List Char :=
  let cs := dropByteOrderMark cs
  match cs with
  | '#' :: '!' :: rest =>
    match dropTrivia (rest.length + 1) rest with
    | '[' :: _ => cs
    | _ => cs.dropWhile (· != '\n')
  | _ => cs

/-- The token trees of a text from its start.  A byte order mark there is no token, but it is a
column. -/
def Forest.ofStart? : List Char → Option (List Token)
  | c :: cs =>
    if c == byteOrderMark then ofText? (Position.start.advance c) cs
    else ofText? Position.start (c :: cs)
  | [] => ofText? Position.start []

/-- Tokens are read from the place that is reached by what was left out at the start. -/
theorem Forest.exists_of_ofStart? {cs : List Char} {ts : List Token} (h : ofStart? cs = some ts) :
    ∃ mark rest, mark ++ rest = cs ∧ ofText? (Position.start.advanceAll mark) rest = some ts := by
  unfold ofStart? at h
  split at h
  · rename_i c rest
    split at h
    · exact ⟨[c], rest, rfl, h⟩
    · exact ⟨[], c :: rest, rfl, h⟩
  · exact ⟨[], [], rfl, h⟩

/-- The token trees of a source file. -/
def Forest.ofFile? (source : String) : Option (List Token) :=
  Forest.ofStart? (codeOfFile source.toList)

end SchemaLint.Code
