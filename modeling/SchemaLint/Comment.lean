import SchemaLint.Position
import SchemaLint.Text.Class

/-!
# Comments of a source text

A source text is cut from the left into lexemes that are fine enough to tell comments from what
only looks like one: a comment mark inside a string, a raw string or a character literal opens no
comment.  Every text can be cut so, whatever it holds, and the lexemes concatenate to it.

* `Lexeme`: a comment, or a piece of text that holds none.
* `Lexeme.first`: the first lexeme of a text and what follows it.
* `lexemes`: the whole cut.
* `comments`: the comments with their places.
-/

namespace SchemaLint

/-- Form of a comment. -/
inductive CommentKind
  /-- From `//` to the end of the line, doc comments included. -/
  | line
  /-- Between the marks of a block comment, which may nest. -/
  | block
deriving DecidableEq, Repr

/-- One comment of a source text. -/
structure Comment where
  /-- Form of the comment. -/
  kind : CommentKind
  /-- Text between the delimiters. -/
  text : String
  /-- Place of the opening delimiter. -/
  position : Position
  /-- Line of the closing delimiter; the line of the opening one for line comments. -/
  endLine : Nat
deriving DecidableEq, Repr

/-- A piece of source text as far as comments are concerned. -/
inductive Lexeme
  /-- A line comment with the text after its mark. -/
  | lineComment (body : List Char)
  /-- A block comment with the text after its opening mark, and whether it is closed. -/
  | blockComment (body : List Char) (closed : Bool)
  /-- Text without comments, and whether a word may go on after it. -/
  | code (text : List Char) (inWord : Bool)
deriving DecidableEq, Repr

namespace Lexeme

/-! ## What each lexeme takes -/

/-- The body of a block comment inside `depth` further open comments, whether it is closed, and
the text after it. -/
def spanBlock : Nat → List Char → List Char × Bool × List Char
  | _, [] => ([], false, [])
  | depth, '/' :: '*' :: cs =>
    let (body, closed, rest) := spanBlock (depth + 1) cs
    ('/' :: '*' :: body, closed, rest)
  | 0, '*' :: '/' :: cs => ([], true, cs)
  | depth + 1, '*' :: '/' :: cs =>
    let (body, closed, rest) := spanBlock depth cs
    ('*' :: '/' :: body, closed, rest)
  | depth, c :: cs =>
    let (body, closed, rest) := spanBlock depth cs
    (c :: body, closed, rest)

/-- The rest of a string literal after its opening quote, closing quote included. -/
def spanString : List Char → List Char × List Char
  | [] => ([], [])
  | '"' :: cs => (['"'], cs)
  | '\\' :: c :: cs =>
    let (taken, rest) := spanString cs
    ('\\' :: c :: taken, rest)
  | c :: cs =>
    let (taken, rest) := spanString cs
    (c :: taken, rest)

/-- The rest of a raw string up to and including its closing mark. -/
def spanRaw (closing : List Char) : List Char → List Char × List Char
  | [] => ([], [])
  | c :: cs =>
    if closing.isPrefixOf (c :: cs) then
      ((c :: cs).take closing.length, (c :: cs).drop closing.length)
    else
      let (taken, rest) := spanRaw closing cs
      (c :: taken, rest)

/-- The text up to and including the first quote or line end. -/
def spanQuote : List Char → List Char × List Char
  | [] => ([], [])
  | c :: cs =>
    if c = '\'' ∨ c = '\n' then ([c], cs)
    else
      let (taken, rest) := spanQuote cs
      (c :: taken, rest)

/-- The letters that can open a raw string, with the text after them. -/
def rawLetters : List Char → Option (List Char × List Char)
  | 'b' :: 'r' :: cs => some (['b', 'r'], cs)
  | 'c' :: 'r' :: cs => some (['c', 'r'], cs)
  | 'r' :: cs => some (['r'], cs)
  | _ => none

/-- The opening of a raw string, its number of hash marks and the text after its quote. -/
def rawOpening? (cs : List Char) : Option (List Char × Nat × List Char) :=
  match rawLetters cs with
  | none => none
  | some (letters, rest) =>
    let hashes := rest.takeWhile (· == '#')
    match rest.dropWhile (· == '#') with
    | '"' :: body => some (letters ++ hashes ++ ['"'], hashes.length, body)
    | _ => none

/-- A character literal or the quote of a lifetime, after its quote. -/
def spanCharacter : List Char → List Char × List Char
  | '\\' :: c :: cs =>
    let (taken, rest) := spanQuote cs
    ('\'' :: '\\' :: c :: taken, rest)
  | c :: '\'' :: cs => (['\'', c, '\''], cs)
  | cs => (['\''], cs)

/-- The first lexeme of the text `c :: cs` and the text after it.  A raw string cannot start in
the middle of a word. -/
def first (inWord : Bool) (c : Char) (cs : List Char) : Lexeme × List Char :=
  match c, cs with
  | '/', '/' :: rest => (.lineComment (rest.takeWhile (· != '\n')), rest.dropWhile (· != '\n'))
  | '/', '*' :: rest =>
    let span := spanBlock 0 rest
    (.blockComment span.1 span.2.1, span.2.2)
  | '"', rest =>
    let (taken, after) := spanString rest
    (.code ('"' :: taken) false, after)
  | _, _ =>
    match if inWord then none else rawOpening? (c :: cs) with
    | some (opening, hashes, body) =>
      let (taken, after) := spanRaw ('"' :: List.replicate hashes '#') body
      (.code (opening ++ taken) false, after)
    | none =>
      if c = '\'' then
        let (taken, after) := spanCharacter cs
        (.code taken false, after)
      else (.code [c] (Text.isAlphanumeric c || c == '_'), cs)

/-- Whether a word may go on after the lexeme. -/
def continuesWord : Lexeme → Bool
  | .code _ inWord => inWord
  | _ => false

/-- The characters the lexeme stands for. -/
def chars : Lexeme → List Char
  | .lineComment body => '/' :: '/' :: body
  | .blockComment body true => '/' :: '*' :: body ++ ['*', '/']
  | .blockComment body false => '/' :: '*' :: body
  | .code text _ => text

/-! ## Progress -/

/-- A block comment takes its text from the front. -/
theorem length_spanBlock_le (depth : Nat) (cs : List Char) :
    (spanBlock depth cs).2.2.length ≤ cs.length := by
  fun_induction spanBlock depth cs <;> simp_all <;> omega

/-- A string takes its text from the front. -/
theorem length_spanString_le (cs : List Char) : (spanString cs).2.length ≤ cs.length := by
  fun_induction spanString cs <;> simp_all <;> omega

/-- A raw string takes its text from the front. -/
theorem length_spanRaw_le (closing cs : List Char) :
    (spanRaw closing cs).2.length ≤ cs.length := by
  fun_induction spanRaw closing cs <;> simp_all <;> omega

/-- What follows a quote takes its text from the front. -/
theorem length_spanQuote_le (cs : List Char) : (spanQuote cs).2.length ≤ cs.length := by
  fun_induction spanQuote cs <;> simp_all <;> omega

/-- A character takes its text from the front. -/
theorem length_spanCharacter_le (cs : List Char) :
    (spanCharacter cs).2.length ≤ cs.length := by
  unfold spanCharacter
  split
  · rename_i cs
    have := length_spanQuote_le cs
    simp; omega
  · simp; omega
  · simp

/-- Letters that announce a string are taken from the front, at least one. -/
theorem length_rawLetters_lt {cs letters rest : List Char}
    (h : rawLetters cs = some (letters, rest)) : rest.length < cs.length := by
  unfold rawLetters at h
  split at h
  · cases h
    exact Nat.lt_add_of_pos_right (Nat.succ_pos 1)
  · cases h
    exact Nat.lt_add_of_pos_right (Nat.succ_pos 1)
  · cases h
    exact Nat.lt_succ_self _
  · cases h

/-- The opening of a raw string is taken from the front; the scanner ends because of it. -/
theorem length_rawOpening_lt {cs opening body : List Char} {hashes : Nat}
    (h : rawOpening? cs = some (opening, hashes, body)) : body.length < cs.length := by
  unfold rawOpening? at h
  split at h
  · cases h
  · rename_i letters rest hletters
    have hlt := length_rawLetters_lt hletters
    simp only at h
    split at h
    · rename_i body' hdrop
      have hle := (List.dropWhile_sublist (· == '#') (l := rest)).length_le
      cases h
      rw [hdrop, List.length_cons] at hle
      omega
    · cases h

/-- The first lexeme of a text takes at least one character. -/
theorem length_first_le (inWord : Bool) (c : Char) (cs : List Char) :
    (first inWord c cs).2.length ≤ cs.length := by
  unfold first
  split
  · rename_i rest
    have := (List.dropWhile_sublist (· != '\n') (l := rest)).length_le
    simp; omega
  · rename_i rest
    have := length_spanBlock_le 0 rest
    simp; omega
  · exact length_spanString_le _
  · split
    · rename_i opening hashes body h
      have hbody : body.length < (c :: cs).length := by
        cases inWord <;> simp at h
        exact length_rawOpening_lt h
      have := length_spanRaw_le ('"' :: List.replicate hashes '#') body
      simp at hbody ⊢; omega
    · split
      · exact length_spanCharacter_le cs
      · simp

end Lexeme

/-! ## The whole text -/

/-- The lexemes of a text, given whether it starts in the middle of a word. -/
def lexemes (inWord : Bool) : List Char → List Lexeme
  | [] => []
  | c :: cs =>
    let lexeme := (Lexeme.first inWord c cs).1
    lexeme :: lexemes lexeme.continuesWord (Lexeme.first inWord c cs).2
termination_by cs => cs.length
decreasing_by
  have := Lexeme.length_first_le inWord c cs
  simp; omega

/-- The comment a lexeme at a given place is, if it is one.  A line comment loses the carriage
returns before the line end. -/
def Lexeme.comment? (place : Position) : Lexeme → Option Comment
  | .lineComment body =>
    some ⟨.line, String.ofList (body.reverse.dropWhile (· == '\r')).reverse, place, place.line⟩
  | .blockComment body closed =>
    some ⟨.block, String.ofList body, place,
      (place.advanceAll (chars (.blockComment body closed))).line⟩
  | .code .. => none

/-- The comments among lexemes that start at a given place. -/
def commentsFrom (place : Position) : List Lexeme → List Comment
  | [] => []
  | lexeme :: rest =>
    (lexeme.comment? place).toList ++ commentsFrom (place.advanceAll lexeme.chars) rest

/-- Every comment of a source text, in order of appearance. -/
def comments (source : String) : List Comment :=
  commentsFrom Position.start (lexemes false source.toList)

end SchemaLint
