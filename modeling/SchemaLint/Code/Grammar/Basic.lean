import SchemaLint.Code.Node

/-!
# Parsing token trees

A parser takes tokens from the front of a list and may fail.  A group is parsed by a parser of its
own, which has to take all of its content.  The grammar is recursive; its nonterminals are `Goal`s,
and every production takes the parsers of all goals as an argument, so that the recursion is tied
in one place.

* `Parser`: a parser over token trees.
* `Goal`, `Rules`: the nonterminals and their parsers.
* `peek…`: tests on the tokens ahead.
* `op`, `word`, `identifier`, `within`, `commaList`: the building blocks.
-/

namespace SchemaLint.Code

/-- A parser over token trees. -/
abbrev Parser := StateT (List Token) Option

/-- What the grammar has to know about a parsed piece besides its tree. -/
inductive Shape
  /-- Nothing in particular. -/
  | plain
  /-- A range expression. -/
  | range
  /-- A comparison, which cannot be compared again. -/
  | comparison
  /-- An expression that ends a statement without a semicolon. -/
  | blockLike
  /-- A macro call in curly brackets. -/
  | bracedMacro
  /-- Any other macro call. -/
  | macroCall
  /-- The pattern `..`. -/
  | restPattern
  /-- A range pattern that lacks an end. -/
  | openRange
  /-- A type that is a single bound. -/
  | bound
deriving DecidableEq, Repr, Inhabited

/-- A parsed piece. -/
structure Parsed where
  /-- The tree. -/
  node : Node
  /-- What the grammar has to know about it. -/
  shape : Shape := .plain
deriving Inhabited

/-- The nonterminals of the grammar. -/
inductive Goal
  /-- An expression; a record literal is allowed only where no block can follow. -/
  | expr (records : Bool)
  /-- An operand with its unary operators. -/
  | unary (records : Bool)
  /-- The operators that follow an operand, down to a precedence. -/
  | climb (lhs : Parsed) (records : Bool) (base : Nat)
  /-- An expression at the start of a statement or match arm. -/
  | leading
  /-- A type; whether bounds may be added to it. -/
  | type (plus : Bool)
  /-- A pattern without alternatives. -/
  | pattern
  /-- A pattern with alternatives. -/
  | alternatives
  /-- A block. -/
  | block
  /-- A block that may begin with inner attributes. -/
  | body
  /-- An item. -/
  | item

/-- The parsers of all nonterminals. -/
abbrev Rules := Goal → Parser Parsed

/-! ## Looking ahead -/

/-- Whether the tokens begin with an operator, whatever follows it. -/
def peekOp : List Char → List Token → Bool
  | [c], .punct d _ _ :: _ => c == d
  | c :: cs, .punct d joint _ :: rest => c == d && joint && peekOp cs rest
  | _, _ => false

/-- Whether the tokens begin with an operator given as text. -/
def at? (operator : String) (ts : List Token) : Bool :=
  peekOp operator.toList ts

/-- Whether the tokens begin with a given word. -/
def peekWord (w : String) : List Token → Bool
  | .ident name _ :: _ => name == w
  | _ => false

/-- Whether the tokens begin with one of several words. -/
def peekWords (ws : List String) : List Token → Bool
  | .ident name _ :: _ => ws.contains name
  | _ => false

/-- Words that are not identifiers. -/
def reservedWords : List String :=
  ["_", "abstract", "as", "async", "await", "become", "box", "break", "const", "continue", "crate",
    "do", "dyn", "else", "enum", "extern", "false", "final", "fn", "for", "if", "impl", "in", "let",
    "loop", "macro", "match", "mod", "move", "mut", "override", "priv", "pub", "ref", "return",
    "Self", "self", "static", "struct", "super", "trait", "true", "try", "type", "typeof", "unsafe",
    "unsized", "use", "virtual", "where", "while", "yield"]

/-- Whether the tokens begin with an identifier that is no reserved word. -/
def peekIdent : List Token → Bool
  | .ident name _ :: _ => !reservedWords.contains name
  | _ => false

/-- Whether the tokens begin with any word. -/
def peekAnyWord : List Token → Bool
  | .ident .. :: _ => true
  | _ => false

/-- Whether the tokens begin with a group. -/
def peekGroup (d : Delimiter) : List Token → Bool
  | .group e _ _ :: _ => d == e
  | _ => false

/-- Whether the tokens begin with a lifetime. -/
def peekLifetime : List Token → Bool
  | .lifetime .. :: _ => true
  | _ => false

/-- Whether a literal is a number. -/
def isNumber (text : String) : Bool :=
  match text.toList with
  | c :: _ => c.isDigit
  | [] => false

/-- Whether the tokens begin with a literal: a truth value and a negative number are literals. -/
def peekLiteral : List Token → Bool
  | .literal .. :: _ => true
  | .ident name _ :: _ => name == "true" || name == "false"
  | .punct '-' _ _ :: .literal text _ :: _ => isNumber text
  | _ => false

/-- A test on the tokens after the first one. -/
def second (look : List Token → Bool) (ts : List Token) : Bool :=
  look (ts.drop 1)

/-- A test on the tokens after the first two. -/
def third (look : List Token → Bool) (ts : List Token) : Bool :=
  look (ts.drop 2)

/-! ## Taking tokens -/

namespace Parser

/-- Whether the tokens ahead pass a test. -/
def ahead (look : List Token → Bool) : Parser Bool :=
  return look (← get)

/-- Whether all tokens are taken. -/
def atEnd : Parser Bool :=
  return (← get).isEmpty

/-- Fails unless a condition holds. -/
def require (condition : Bool) : Parser Unit :=
  if condition then pure () else failure

/-- An operator, which may be the beginning of a longer run of punctuation. -/
def op (operator : String) : Parser (List Token) := do
  let ts ← get
  match ts with
  | t :: _ =>
    if at? operator ts then
      set (ts.drop operator.length)
      return Token.ofOperator t.place operator.toList
    else failure
  | [] => failure

/-- An operator if it is there. -/
def op? (operator : String) : Parser (List Token) := do
  if ← ahead (at? operator) then op operator else return []

/-- A given word. -/
def word (w : String) : Parser (List Token) := do
  match ← get with
  | t :: rest => if peekWord w [t] then set rest; return [t] else failure
  | [] => failure

/-- A given word if it is there. -/
def word? (w : String) : Parser (List Token) := do
  if ← ahead (peekWord w) then word w else return []

/-- Any word, reserved or not. -/
def anyWord : Parser Ident := do
  match ← get with
  | .ident name place :: rest => set rest; return ⟨name, place⟩
  | _ => failure

/-- An identifier. -/
def identifier : Parser Ident := do
  require (← ahead peekIdent)
  anyWord

/-- A lifetime. -/
def lifetime : Parser (List Token) := do
  match ← get with
  | .lifetime name place :: rest => set rest; return [.lifetime name place]
  | _ => failure

/-- A literal.  The sign of a negative number is a token of its own. -/
def literal : Parser Node := do
  match ← get with
  | .literal text place :: rest => set rest; return .literal [.literal text place]
  | .ident name place :: rest =>
    require (name == "true" || name == "false")
    set rest
    return .literal [.ident name place]
  | .punct '-' _ place :: .literal text inner :: rest =>
    require (isNumber text)
    set rest
    return .literal [.punct '-' false place, .literal text inner]
  | _ => failure

/-- The content of a group, as it stands. -/
def rawGroup (d : Delimiter) : Parser (Position × List Token) := do
  match ← get with
  | .group e place inner :: rest =>
    if d = e then set rest; return (place, inner) else failure
  | _ => failure

/-- Any group, as it stands. -/
def anyGroup : Parser (Delimiter × Position × List Token) := do
  match ← get with
  | .group d place inner :: rest => set rest; return (d, place, inner)
  | _ => failure

/-- The content of a group parsed as a whole. -/
def within {α : Type} (d : Delimiter) (p : Parser α) : Parser (Position × α) := do
  let (place, inner) ← rawGroup d
  match p.run inner with
  | some (a, []) => return (place, a)
  | _ => failure

/-- What a parser yields until it yields nothing, at most as often as given. -/
def repeatUpTo {α : Type} (step : Parser (Option α)) : Nat → Parser (List α)
  | 0 => failure
  | bound + 1 => do
    match ← step with
    | none => return []
    | some a => return a :: (← repeatUpTo step bound)

/-- What a parser yields until it yields nothing.  A step that yields something takes a token, so
there are no more steps than tokens. -/
def repeatAll {α : Type} (step : Parser (Option α)) : Parser (List α) := do
  repeatUpTo step ((← get).length + 2)

/-- What a parser yields until all tokens are taken. -/
def untilEnd {α : Type} (p : Parser α) : Parser (List α) :=
  repeatAll do if ← atEnd then return none else return some (← p)

/-- Elements with commas between them up to the end, and whether a comma ends them. -/
def commaListUpTo {α : Type} (p : Parser α) : Nat → Parser (List α × Bool)
  | 0 => failure
  | bound + 1 => do
    if ← atEnd then return ([], false)
    let first ← p
    if ← atEnd then return ([first], false)
    let _ ← op ","
    if ← atEnd then return ([first], true)
    let (rest, trailing) ← commaListUpTo p bound
    return (first :: rest, trailing)

/-- Elements with commas between them up to the end, and whether a comma ends them. -/
def commaList {α : Type} (p : Parser α) : Parser (List α × Bool) := do
  commaListUpTo p ((← get).length + 2)

/-- The tokens taken between an earlier state and now, as they stand. -/
def since (earlier : List Token) : Parser (List Token) := do
  return earlier.take (earlier.length - (← get).length)

end Parser

/-- Nodes with commas between them, and at the end if there was one. -/
def withCommas (nodes : List Node) (trailing : Bool) : List Node :=
  let commas : Node := .tokens [Node.comma]
  nodes.intersperse commas ++ if trailing then [commas] else []

end SchemaLint.Code
