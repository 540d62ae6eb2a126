import SchemaLint.Text.Class

/-!
# Lexical pieces of TOML

Readers of the smallest pieces of a document: blanks, line ends, comments, keys and strings.  A
reader takes characters from the front of a text and may fail.

* `Toml.Reader`: a reader.
* `Toml.basicString`, `Toml.longString` and the literal forms: strings.
* `Toml.keyPath`: a key, which may be dotted.
-/

namespace SchemaLint.Toml

/-- A reader: what it makes of a text, and the text after it. -/
abbrev Reader := StateT (List Char) Option

/-- Fails unless a condition holds. -/
def require (b : Bool) : Reader Unit :=
  if b then pure () else failure

/-- The next character, left in the text. -/
def peek? : Reader (Option Char) := do
  return (← get).head?

/-- The next character. -/
def anyChar : Reader Char := do
  match ← get with
  | c :: cs =>
    set cs
    return c
  | [] => failure

/-- A character of a kind. -/
def charThat (p : Char → Bool) : Reader Char := do
  let c ← anyChar
  require (p c)
  return c

/-- A given piece of text. -/
def piece (cs : List Char) : Reader Unit :=
  cs.forM fun c => do let _ ← charThat (· == c)

/-- The longest run of characters of a kind. -/
def run (p : Char → Bool) : Reader (List Char) := do
  let cs ← get
  set (cs.dropWhile p)
  return cs.takeWhile p

/-- What a reader makes of the text, or nothing, and then no text is taken. -/
def optional {α : Type} (r : Reader α) : Reader (Option α) := fun cs =>
  match r cs with
  | some (a, rest) => some (some a, rest)
  | none => some (none, cs)

/-- As many results of a reader as there are, at most a given number. -/
def repeated {α : Type} (r : Reader α) : Nat → Reader (List α)
  | 0 => pure []
  | bound + 1 => do
    match ← optional r with
    | none => return []
    | some a => return a :: (← repeated r bound)

/-- As many results of a reader as there are; the reader must take some text each time. -/
def many {α : Type} (r : Reader α) : Reader (List α) := do
  repeated r (← get).length

/-- Results of a reader with a separator between them, at least one. -/
def separated {α : Type} (separator : Reader Unit) (r : Reader α) : Reader (List α) := do
  let first ← r
  return first :: (← many do
    separator
    r)

/-! ## Blanks and comments -/

/-- Whether a character is a blank within a line. -/
def isBlank (c : Char) : Bool :=
  c == ' ' || c == '\t'

/-- Blanks within a line. -/
def blanks : Reader Unit := do
  let _ ← run isBlank

/-- The end of a line. -/
def lineEnd : Reader Unit := do
  let c ← anyChar
  if c == '\r' then piece ['\n'] else require (c == '\n')

/-- Whether a character may stand in a comment. -/
def isPrintable (c : Char) : Bool :=
  c == '\t' || (' ' ≤ c && c != '\x7f')

/-- A comment up to the end of its line. -/
def comment : Reader Unit := do
  piece ['#']
  let _ ← run isPrintable

/-- The rest of a line after a statement. -/
def restOfLine : Reader Unit := do
  blanks
  let _ ← optional comment
  if (← get).isEmpty then return ()
  lineEnd

/-- Blanks, line ends and comments. -/
def layout : Reader Unit := do
  let _ ← many do
    match ← peek? with
    | some '#' => comment
    | some c => if isBlank c then let _ ← anyChar else lineEnd
    | none => failure

/-! ## Strings -/

/-- The value of a number of hexadecimal digits. -/
def hexNumber : Nat → Nat → Reader Nat
  | 0, value => pure value
  | digits + 1, value => do
    let c ← charThat Text.isHexDigit
    hexNumber digits (value * 16 + Text.hexValue c)

/-- The character of an escape with a number of hexadecimal digits. -/
def numberedChar (digits : Nat) : Reader Char := do
  let n ← hexNumber digits 0
  require (n < 0xd800 || (0xdfff < n && n < 0x110000))
  return Char.ofNat n

/-- The character of an escape, after the backslash. -/
def escaped : Reader Char := do
  match ← anyChar with
  | 'b' => return '\x08'
  | 't' => return '\t'
  | 'n' => return '\n'
  | 'f' => return '\x0c'
  | 'r' => return '\r'
  | '"' => return '"'
  | '\\' => return '\\'
  | 'u' => numberedChar 4
  | 'U' => numberedChar 8
  | _ => failure

/-- A string in double quotes. -/
def basicString : Reader String := do
  piece ['"']
  let body ← many do
    let c ← charThat fun c => isPrintable c && c != '"'
    if c == '\\' then escaped else return c
  piece ['"']
  return String.ofList body

/-- A string in single quotes. -/
def literalString : Reader String := do
  piece ['\'']
  let body ← run fun c => isPrintable c && c != '\''
  piece ['\'']
  return String.ofList body

/-- A line end after a backslash, with the blanks around it and all lines that follow it empty. -/
def joinedLines : Reader Unit := do
  blanks
  lineEnd
  let _ ← many do
    match ← peek? with
    | some c => if isBlank c then let _ ← anyChar else lineEnd
    | none => failure

/-- A piece of a string of several lines other than a quote: what it stands for. -/
def longPiece (quote : Char) : Reader (List Char) := do
  match ← peek? with
  | some '\r' =>
    lineEnd
    return ['\n']
  | some '\n' =>
    lineEnd
    return ['\n']
  | some c =>
    require (isPrintable c && c != quote)
    let _ ← anyChar
    if c == '\\' && quote == '"' then
      match ← optional joinedLines with
      | some () => return []
      | none => return [← escaped]
    else return [c]
  | none => failure

/-- The end of a string of several lines: what its last quotes stand for. -/
def longClose (quote : Char) : Reader (List Char) := fun cs =>
  match cs.takeWhile (· == quote) with
  | [_, _, _] => some ([], cs.drop 3)
  | [a, _, _, _] => some ([a], cs.drop 4)
  | a :: b :: _ :: _ :: _ :: _ => some ([a, b], cs.drop 5)
  | _ => none

/-- One or two quotes that do not close a string of several lines. -/
def looseQuotes (quote : Char) : Reader (List Char) := fun cs =>
  match cs.takeWhile (· == quote) with
  | [a] => some ([a], cs.drop 1)
  | [a, b] => some ([a, b], cs.drop 2)
  | _ => none

/-- A string of several lines between three quotes; a line end right after the first three does
not count. -/
def longString (quote : Char) : Reader String := do
  piece [quote, quote, quote]
  let _ ← optional lineEnd
  let body ← many do
    if (← peek?) == some quote then looseQuotes quote else longPiece quote
  let last ← longClose quote
  return String.ofList (body.flatten ++ last)

/-- A string in any of its forms. -/
def anyString : Reader String := do
  match ← get with
  | '"' :: '"' :: '"' :: _ => longString '"'
  | '\'' :: '\'' :: '\'' :: _ => longString '\''
  | '"' :: _ => basicString
  | _ => literalString

/-! ## Keys -/

/-- Whether a character may stand in a key without quotes. -/
def isBareKeyChar (c : Char) : Bool :=
  c.isAlphanum || c == '_' || c == '-'

/-- A key without dots. -/
def simpleKey : Reader String := do
  match ← peek? with
  | some '"' => basicString
  | some '\'' => literalString
  | _ =>
    let cs ← run isBareKeyChar
    require !cs.isEmpty
    return String.ofList cs

/-- The deepest nesting of a document; a deeper one is refused. -/
def nestingLimit : Nat := 80

/-- A key as the path of tables it names and its last part. -/
def keyPath : Reader (List String × String) := do
  let parts ← separated (piece ['.']) do
    blanks
    let k ← simpleKey
    blanks
    return k
  require (parts.length < nestingLimit)
  match parts.getLast? with
  | some last => return (parts.dropLast, last)
  | none => failure

end SchemaLint.Toml
