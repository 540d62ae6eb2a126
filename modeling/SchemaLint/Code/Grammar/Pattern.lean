import SchemaLint.Code.Grammar.Type
import SchemaLint.Code.Literal

/-!
# Patterns

* `patternGoal`: a pattern without alternatives.
* `alternativesGoal`: patterns separated by bars.
-/

namespace SchemaLint.Code

open SchemaLint.Code.Parser

/-- The name of a field or the index of a tuple element. -/
def member : Parser Ident := do
  match ← get with
  | .literal text place :: rest =>
    match elementPlace? text with
    | none => failure
    | some index =>
      set rest
      return ⟨toString index, place⟩
  | _ => identifier

/-- Whether a member is a name. -/
def Ident.isNamed (i : Ident) : Bool :=
  !isNumber i.name

/-- The dots of a range; three dots are an old spelling of the closed form.  The second component
says whether the end is included. -/
def rangeMark (obsolete : Bool) : Parser (List Token × Bool) := do
  let ts ← get
  if at? "..=" ts then return (← op "..=", true)
  else if at? "..." ts then
    require obsolete
    let dots ← op "..."
    match dots with
    | t :: _ => return (Token.ofOperator t.place ['.', '.', '='], true)
    | [] => failure
  else return (← op "..", false)

/-- Whether the tokens begin with a path in an expression. -/
def peekPath (ts : List Token) : Bool :=
  peekIdent ts || at? "::" ts || at? "<" ts || peekWords ["self", "Self", "super", "crate"] ts

/-- The end of a range pattern, if there is one. -/
def rangeBound (rules : Rules) : Parser (Option Node) := do
  let ts ← get
  if ts.isEmpty || at? "|" ts || at? "=" ts || (at? ":" ts && !at? "::" ts) || at? "," ts ||
      at? ";" ts || peekWord "if" ts then return none
  else if peekLiteral ts then return some (← literal)
  else if peekPath ts then
    let path ← qualifiedPath rules true
    return some (.path path.name path.parts)
  else
    let w ← word "const"
    return some (.seq [.tokens w, (← rules .body).node])

/-- The rest of a range pattern after its start. -/
def rangePattern (rules : Rules) (start : List Node) : Parser Parsed := do
  let (dots, closed) ← rangeMark true
  let last ← rangeBound rules
  require (!closed || last.isSome)
  let shape : Shape := if last.isNone then .openRange else .plain
  return ⟨.seq (start ++ [.tokens dots] ++ last.toList), shape⟩

/-- A field of a record pattern. -/
def fieldPattern (rules : Rules) : Parser Node := do
  let boxed ← word? "box"
  let byRef ← word? "ref"
  let mutable ← word? "mut"
  let marked := !(boxed.isEmpty && byRef.isEmpty && mutable.isEmpty)
  let name ← if marked then identifier else member
  if (!marked && (← ahead (at? ":"))) || !name.isNamed then
    let colon ← op ":"
    let p ← rules .alternatives
    return .seq [.tokens [name.token], .tokens colon, p.node]
  else
    return .binder [.tokens boxed, .tokens byRef, .tokens mutable] name []

/-- The content of a record pattern. -/
def recordPattern (rules : Rules) : Parser (List Node) := do
  let rec go : Nat → Parser (List Node)
    | 0 => failure
    | n + 1 => do
      if ← atEnd then return []
      let attributes ← outerAttributes rules
      if ← ahead (at? "..") then
        let dots ← op ".."
        return attributes ++ [.tokens dots]
      let field ← fieldPattern rules
      if ← atEnd then return attributes ++ [field]
      let separator ← op ","
      return attributes ++ [field, .tokens separator] ++ (← go n)
  go ((← get).length + 2)

/-- A pattern that begins with a path. -/
def pathPattern (rules : Rules) : Parser Parsed := do
  let path ← qualifiedPath rules true
  let node : Node := .path path.name path.parts
  let ts ← get
  if at? "!" ts && !at? "!=" ts && path.name.isPlain then
    return (← macroTail rules path.parts (pure [])).1
  else if peekGroup .brace ts then
    let (place, content) ← within .brace (recordPattern rules)
    return ⟨.seq [node, .group .brace place content], .plain⟩
  else if peekGroup .paren ts then
    let (place, elements, trailing) ← within .paren (commaList (rules .alternatives))
    return ⟨.seq [node, .group .paren place (withCommas (elements.map (·.node)) trailing)], .plain⟩
  else if at? ".." ts then rangePattern rules [node]
  else return ⟨node, .plain⟩

/-- A pattern that binds a name. -/
def binderPattern (rules : Rules) : Parser Parsed := do
  let byRef ← word? "ref"
  let mutable ← word? "mut"
  let name ← if ← ahead (peekWord "self") then anyWord else identifier
  let mark ← op? "@"
  let sub ← if mark.isEmpty then pure [] else do pure [.tokens mark, (← rules .pattern).node]
  return ⟨.binder [.tokens byRef, .tokens mutable] name sub, .plain⟩

/-- A pattern in round brackets, or a tuple of patterns. -/
def parenPattern (rules : Rules) : Parser Parsed := do
  let (place, elements, trailing) ← within .paren (commaList (rules .alternatives))
  match elements, trailing with
  | [p], false =>
    if p.shape = .restPattern then return ⟨.group .paren place [p.node], .plain⟩
    else return ⟨.paren place p.node, .plain⟩
  | _, _ => return ⟨.group .paren place (withCommas (elements.map (·.node)) trailing), .plain⟩

/-- A pattern without alternatives. -/
def patternGoal (rules : Rules) : Parser Parsed := do
  let ts ← get
  if (peekIdent ts && (second (at? "::") ts || second (at? "!") ts ||
        second (peekGroup .brace) ts || second (peekGroup .paren) ts ||
        second (at? "..") ts)) ||
      (peekWord "self" ts && second (at? "::") ts) || at? "::" ts || at? "<" ts ||
      peekWords ["Self", "super", "crate"] ts then
    pathPattern rules
  else if peekWord "_" ts then return ⟨.tokens (← word "_"), .plain⟩
  else if peekWord "box" ts then
    let _ ← word "box"
    let _ ← rules .pattern
    return ⟨.tokens (← since ts), .plain⟩
  else if at? "-" ts || peekLiteral ts || peekWord "const" ts then
    match ← rangeBound rules with
    | none => failure
    | some start =>
      if ← ahead (at? "..") then rangePattern rules [start] else return ⟨start, .plain⟩
  else if peekWords ["ref", "mut", "self"] ts || peekIdent ts then binderPattern rules
  else if at? "&" ts then
    let amp ← op "&"
    let mutable ← word? "mut"
    return ⟨.seq [.tokens amp, .tokens mutable, (← rules .pattern).node], .plain⟩
  else if peekGroup .paren ts then parenPattern rules
  else if peekGroup .bracket ts then
    let (place, elements, trailing) ← within .bracket (commaList (rules .alternatives))
    require (elements.all fun p => p.shape != .openRange)
    return ⟨.group .bracket place (withCommas (elements.map (·.node)) trailing), .plain⟩
  else if at? ".." ts && !at? "..." ts then
    let (dots, closed) ← rangeMark false
    match ← rangeBound rules with
    | some last => return ⟨.seq [.tokens dots, last], .openRange⟩
    | none =>
      require (!closed)
      return ⟨.tokens dots, .restPattern⟩
  else failure

/-- Whether the tokens begin with the bar before a further alternative. -/
def peekBar (ts : List Token) : Bool :=
  at? "|" ts && !at? "||" ts && !at? "|=" ts

/-- A pattern with alternatives. -/
def alternativesGoal (rules : Rules) : Parser Parsed := do
  let lead ← op? "|"
  let first ← rules .pattern
  let more ← repeatAll do
    if ← ahead peekBar then
      let bar ← op "|"
      return some [.tokens bar, (← rules .pattern).node]
    else return none
  if lead.isEmpty && more.isEmpty then return first
  else return ⟨.seq (.tokens lead :: first.node :: more.flatten), .plain⟩

end SchemaLint.Code
