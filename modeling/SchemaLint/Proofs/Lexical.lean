import Mathlib.Data.List.DropRight
import SchemaLint.Comment

/-!
# The lexical grammar of a source text

What the pieces of a source text are, said without saying how they are found.  A text is a
sequence of comments, literals, lifetimes, words and other characters.  Each piece has a shape of
its own (`Piece.WellFormed`), and none of them may open a longer one together with what follows it
(`Piece.StopsBefore`), so a sequence with both (`Piece.Cut`) is cut from the left with every piece
as long as it can be.  Only the letter of a literal may also be cut off as a word.

* `BlockText`, `StringBody`, `rawClosing`: the shapes that are not runs of one class of characters.
* `Opens`, `OpensRaw`: how the longer pieces start.
* `Piece.commentsAfter`: the comments of a sequence of pieces, with places counted from the text
  before them.
-/

namespace SchemaLint

/-- Characters that words are made of. -/
def isWordChar (c : Char) : Bool :=
  Text.isAlphanumeric c || c == '_'

/-! ## Shapes -/

/-- A block comment after its opening mark, closing mark included.  Inner comments are closed
before the outer one, and marks are read from the left: `/` in `*/*` belongs to the first. -/
inductive BlockText : List Char → Prop
  | close : BlockText ['*', '/']
  | char {c : Char} {cs : List Char} (hopen : ¬ ['/', '*'] <+: c :: cs)
      (hclose : ¬ ['*', '/'] <+: c :: cs) (hcs : BlockText cs) : BlockText (c :: cs)
  | nest {inner cs : List Char} (hinner : BlockText inner) (hcs : BlockText cs) :
      BlockText ('/' :: '*' :: (inner ++ cs))

/-- The text between the quotes of a string: a backslash takes the next character with it. -/
inductive StringBody : List Char → Prop
  | nil : StringBody []
  | plain {c : Char} {cs : List Char} (hquote : c ≠ '"') (hescape : c ≠ '\\')
      (hcs : StringBody cs) : StringBody (c :: cs)
  | escape (c : Char) {cs : List Char} (hcs : StringBody cs) : StringBody ('\\' :: c :: cs)

/-- What closes a raw string that was opened with so many hash marks. -/
def rawClosing (hashes : Nat) : List Char :=
  '"' :: List.replicate hashes '#'

/-- The letter in front of a string literal. -/
inductive StringMark
  | text
  | byte
  | c
deriving DecidableEq, Repr

/-- The characters of the letter, if there is one. -/
def StringMark.chars : StringMark → List Char
  | text => []
  | byte => ['b']
  | c => ['c']

/-- A raw string up to and including its opening quote. -/
def rawOpening (mark : StringMark) (hashes : Nat) : List Char :=
  mark.chars ++ 'r' :: (List.replicate hashes '#' ++ ['"'])

/-- Texts that start like a raw string. -/
def OpensRaw (cs : List Char) : Prop :=
  ∃ mark hashes, rawOpening mark hashes <+: cs

/-- Texts that start like a comment, a string, a character or a lifetime. -/
inductive Opens : List Char → Prop
  | lineComment (cs : List Char) : Opens ('/' :: '/' :: cs)
  | blockComment (cs : List Char) : Opens ('/' :: '*' :: cs)
  | string (cs : List Char) : Opens ('"' :: cs)
  | character (c : Char) (cs : List Char) : Opens ('\'' :: c :: '\'' :: cs)
  | escaped (cs : List Char) : Opens ('\'' :: '\\' :: cs)
  | lifetime {c : Char} (hc : isWordChar c) (cs : List Char) : Opens ('\'' :: c :: cs)

/-! ## Pieces -/

/-- One piece of a source text. -/
inductive Piece
  /-- From `//` to the end of the line. -/
  | lineComment (body : List Char)
  /-- A block comment with the text between its outer marks. -/
  | blockComment (body : List Char)
  /-- A string with backslash escapes. -/
  | string (mark : StringMark) (body : List Char)
  /-- A raw string. -/
  | rawString (mark : StringMark) (hashes : Nat) (body : List Char)
  /-- A character between quotes. -/
  | character (byte : Bool) (c : Char)
  /-- An escaped character between quotes, with what belongs to the escape after it. -/
  | escapedCharacter (byte : Bool) (c : Char) (more : List Char)
  /-- A quote and a name. -/
  | lifetime (name : List Char)
  /-- A run of letters, digits and underscores. -/
  | word (letters : List Char)
  /-- Any other character. -/
  | other (c : Char)
deriving DecidableEq, Repr

namespace Piece

/-- The letter in front of a byte character. -/
def byteMark (byte : Bool) : List Char :=
  if byte then ['b'] else []

/-- The characters the piece stands for. -/
def chars : Piece → List Char
  | lineComment body => '/' :: '/' :: body
  | blockComment body => '/' :: '*' :: (body ++ ['*', '/'])
  | string mark body => mark.chars ++ '"' :: (body ++ ['"'])
  | rawString mark hashes body => rawOpening mark hashes ++ (body ++ rawClosing hashes)
  | character byte c => byteMark byte ++ ['\'', c, '\'']
  | escapedCharacter byte c more => byteMark byte ++ '\'' :: '\\' :: c :: (more ++ ['\''])
  | lifetime name => '\'' :: name
  | word letters => letters
  | other c => [c]

/-- The text of a sequence of pieces. -/
def text (pieces : List Piece) : List Char :=
  pieces.flatMap chars

/-- The piece has the shape of its kind. -/
def WellFormed : Piece → Prop
  | lineComment body => '\n' ∉ body
  | blockComment body => BlockText (body ++ ['*', '/'])
  | string _ body => StringBody body
  | rawString _ hashes body => ¬ rawClosing hashes <:+: body
  | character _ c => c ≠ '\\'
  | escapedCharacter _ _ more => ∀ c ∈ more, c ≠ '\'' ∧ c ≠ '\n'
  | lifetime name => name ≠ [] ∧ ∀ c ∈ name, isWordChar c
  | word letters => letters ≠ [] ∧ ∀ c ∈ letters, isWordChar c
  | other c => ¬ isWordChar c

/-- The piece does not run on into the text after it.  Comments in a block and literals say
themselves where they end. -/
def StopsBefore (rest : List Char) : Piece → Prop
  | lineComment _ => ∀ c ∈ rest.head?, c = '\n'
  | lifetime _ => ∀ c ∈ rest.head?, ¬ isWordChar c ∧ c ≠ '\'' ∧ c ≠ '"' ∧ c ≠ '#'
  | word letters => (∀ c ∈ rest.head?, ¬ isWordChar c) ∧ ¬ OpensRaw (letters ++ rest)
  | other c => ¬ Opens (c :: rest)
  | _ => True

/-- Well-formed pieces, each of which ends where the next one starts. -/
inductive Cut : List Piece → Prop
  | nil : Cut []
  | cons {piece : Piece} {rest : List Piece} (shape : piece.WellFormed)
      (stops : piece.StopsBefore (text rest)) (hrest : Cut rest) : Cut (piece :: rest)

end Piece

/-! ## Comments -/

/-- The place of the character that follows a text. -/
def Position.after (before : List Char) : Position :=
  ⟨before.count '\n' + 1, (before.rtakeWhile (· != '\n')).length + 1⟩

namespace Piece

/-- The comment that a piece after a given text is, if it is one. -/
def comment? (before : List Char) : Piece → Option Comment
  | lineComment body =>
    some ⟨.line, String.ofList (body.rdropWhile (· == '\r')), .after before,
      (Position.after before).line⟩
  | blockComment body =>
    some ⟨.block, String.ofList body, .after before,
      (Position.after (before ++ '/' :: '*' :: body)).line⟩
  | _ => none

/-- The comments of a sequence of pieces after a given text. -/
def commentsAfter (before : List Char) : List Piece → List Comment
  | [] => []
  | piece :: rest => (piece.comment? before).toList ++ commentsAfter (before ++ piece.chars) rest

end Piece

end SchemaLint
