import SchemaLint.Code.Grammar.Expression

/-!
# Statements and blocks

* `statement`: one statement of a block.
* `blockGoal`, `bodyGoal`: blocks, the latter with inner attributes.
-/

namespace SchemaLint.Code

open SchemaLint.Code.Parser

/-- A `let` statement. -/
def letStatement (rules : Rules) (attributes : List Node) : Parser Node := do
  let _ ← word "let"
  let p ← rules .pattern
  let pattern ← if ← ahead (at? ":") then do
      let _ ← op ":"
      pure (Node.typed p.node (← rules (.type true)).node)
    else pure p.node
  let init ← if ← ahead (at? "=") then do
      let eq ← op "="
      let value ← rules (.expr true)
      if !value.node.endsWithBrace && (← ahead (peekWord "else")) then
        let otherwise ← word "else"
        pure [.tokens eq, value.node, .tokens otherwise, (← rules .block).node]
      else pure [.tokens eq, value.node]
    else pure []
  let _ ← op ";"
  return .binding attributes pattern init

/-- Whether the tokens begin an item and not an expression. -/
def peekItem (ts : List Token) : Bool :=
  peekWord "pub" ts || (peekWord "crate" ts && !second (at? "::") ts) || peekWord "extern" ts ||
    peekWord "use" ts ||
    (peekWord "static" ts && (second (peekWord "mut") ts || second peekIdent ts)) ||
    (peekWord "const" ts &&
      !(second (peekGroup .brace) ts || second (peekWord "static") ts ||
        (second (peekWord "async") ts && !third (peekWords ["unsafe", "extern", "fn"]) ts) ||
        second (peekWord "move") ts || second (at? "|") ts)) ||
    (peekWord "unsafe" ts && !second (peekGroup .brace) ts) ||
    (peekWord "async" ts && second (peekWords ["unsafe", "extern", "fn"]) ts) ||
    peekWords ["fn", "mod", "type", "struct", "enum", "trait", "impl", "macro"] ts ||
    (peekWord "union" ts && second peekIdent ts) ||
    (peekWord "auto" ts && second (peekWord "trait") ts) ||
    (peekWord "default" ts && second (peekWords ["unsafe", "impl"]) ts)

/-- How a statement that begins with a macro path goes on. -/
inductive MacroStart
  /-- The macro call is an item. -/
  | item
  /-- The macro call in curly brackets is the whole statement. -/
  | statement (path : List Node) (rest : List Token)
  /-- Any other statement. -/
  | other

/-- Whether a statement is a macro call of its own. -/
def macroStart (ts : List Token) : MacroStart :=
  match plainPath.run ts with
  | none => .other
  | some ((_, path), rest) =>
    if !at? "!" rest then .other
    else if second peekIdent rest || second (peekWord "try") rest then .item
    else if second (peekGroup .brace) rest &&
        !((third (at? ".") rest && !third (at? "..") rest) || third (at? "?") rest) then
      .statement path rest
    else .other

/-- A statement, and whether another one may follow it. -/
def statement (rules : Rules) : Parser (Node × Bool) := do
  let begin ← get
  let attributes ← outerAttributes rules
  let ts ← get
  let asItem : Parser (Node × Bool) := do
    set begin
    return ((← rules .item).node, true)
  match macroStart ts with
  | .item => asItem
  | .statement path rest =>
    set rest
    let (call, _) ← macroTail rules path (pure [])
    let semi ← op? ";"
    return (.seq [Node.withAttributes attributes call.node, .tokens semi], true)
  | .other =>
    if peekWord "let" ts then return (← letStatement rules attributes, true)
    else if peekItem ts then asItem
    else
      let e ← rules .leading
      let node := Node.withAttributesLeft attributes e.node
      if ← ahead (at? ";") then
        let semi ← op ";"
        return (.seq [node, .tokens semi], true)
      else return (node, e.shape = .blockLike || e.shape = .bracedMacro)

/-- The statements of a block. -/
def statements (rules : Rules) : Parser (List Node) :=
  repeatAll do
    if ← ahead (at? ";") then return some (.tokens (← op ";"))
    else if ← atEnd then return none
    else
      let (node, complete) ← statement rules
      require (complete || (← atEnd))
      return some node

/-- A block. -/
def blockGoal (rules : Rules) : Parser Parsed := do
  let (place, content) ← within .brace (statements rules)
  return ⟨.block place content, .blockLike⟩

/-- A block that may begin with inner attributes. -/
def bodyGoal (rules : Rules) : Parser Parsed := do
  let (place, attributes, content) ← within .brace do
    let attributes ← innerAttributes rules
    return (attributes, ← statements rules)
  return ⟨.bodied [] attributes (.block place content), .blockLike⟩

end SchemaLint.Code
