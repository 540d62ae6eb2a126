import SchemaLint.Code.Grammar.Pattern

/-!
# Expressions

Operators are parsed by precedence climbing.  A record literal is not allowed in the head of a
loop or condition, where a block follows.

* `exprGoal`, `unaryGoal`, `climbGoal`: expressions and their operators.
* `leadingGoal`: an expression at the start of a statement or match arm, where an expression that
  ends in a block ends the statement.
-/

namespace SchemaLint.Code

open SchemaLint.Code.Parser

/-! ## Operators -/

/-- Precedences, the weakest first. -/
abbrev Precedence := Nat

namespace Precedence

/-- Assignment. -/
def assign : Precedence := 1

/-- Ranges. -/
def range : Precedence := 2

/-- Comparisons. -/
def compare : Precedence := 6

/-- Casts. -/
def cast : Precedence := 13

end Precedence

/-- Binary operators with their precedences; an operator stands before its beginnings. -/
def binaryOperators : List (String × Precedence) :=
  [("+=", 1), ("-=", 1), ("*=", 1), ("/=", 1), ("%=", 1), ("^=", 1), ("&=", 1), ("|=", 1),
    ("<<=", 1), (">>=", 1), ("&&", 4), ("||", 3), ("<<", 10), (">>", 10), ("==", 6), ("<=", 6),
    ("!=", 6), (">=", 6), ("+", 11), ("-", 11), ("*", 12), ("/", 12), ("%", 12), ("^", 8),
    ("&", 9), ("|", 7), ("<", 6), (">", 6)]

/-- The binary operator the tokens begin with. -/
def peekBinary (ts : List Token) : Option (String × Precedence) :=
  binaryOperators.find? fun (operator, _) => at? operator ts

/-- The precedence of the operator the tokens begin with; zero if there is none. -/
def peekPrecedence (ts : List Token) : Precedence :=
  match peekBinary ts with
  | some (_, p) => p
  | none =>
    if at? "=" ts && !at? "=>" ts then Precedence.assign
    else if at? ".." ts then Precedence.range
    else if peekWord "as" ts then Precedence.cast
    else 0

/-- The right operand given what was read of it. -/
def extendOperand (rules : Rules) (records : Bool) (p : Precedence) :
    Nat → Parsed → Parser Parsed
  | 0, rhs => return rhs
  | bound + 1, rhs => do
    let before ← get
    let next := peekPrecedence before
    if p < next || (next == p && p == Precedence.assign) then
      let longer ← rules (.climb rhs records next)
      if (← get).length == before.length then return longer
      else extendOperand rules records p bound longer
    else return rhs

/-- The right operand of an operator. -/
def rightOperand (rules : Rules) (records : Bool) (p : Precedence) : Parser Parsed := do
  let rhs ← rules (.unary records)
  extendOperand rules records p ((← get).length + 1) rhs

/-- Whether a half-open range has no end. -/
def endsRange (records : Bool) (ts : List Token) : Bool :=
  ts.isEmpty || at? "," ts || at? ";" ts || (at? "." ts && !at? ".." ts) || at? "?" ts ||
    at? "=>" ts || (!records && peekGroup .brace ts) || at? "=" ts || at? "+" ts || at? "/" ts ||
    at? "%" ts || at? "^" ts || at? ">" ts || at? "<=" ts || at? "!=" ts || at? "-=" ts ||
    at? "*=" ts || at? "&=" ts || at? "|=" ts || at? "<<=" ts || peekWord "as" ts

/-- The dots and the end of a range expression. -/
def rangeTail (rules : Rules) (records : Bool) : Parser (List Node) := do
  let (dots, closed) ← rangeMark false
  if !closed && endsRange records (← get) then return [.tokens dots]
  else return [.tokens dots, (← rightOperand rules records Precedence.range).node]

/-- Whether the tokens after a cast would apply to its type. -/
def bindsCast (ts : List Token) : Bool :=
  (at? "." ts && !at? ".." ts) || at? "?" ts || peekGroup .bracket ts || peekGroup .paren ts

/-- The operators that follow an operand, down to a precedence. -/
def climbGoal (rules : Rules) (lhs : Parsed) (records : Bool) (base : Precedence) :
    Parser Parsed := do
  let ts ← get
  if lhs.shape = .range then return lhs
  match peekBinary ts with
  | some (operator, p) =>
    if p < base then return lhs
    require (!(p == Precedence.compare && lhs.shape = .comparison))
    let mark ← op operator
    let rhs ← rightOperand rules records p
    let shape : Shape := if p == Precedence.compare then .comparison else .plain
    rules (.climb ⟨.operation lhs.node mark rhs.node, shape⟩ records base)
  | none =>
    if base ≤ Precedence.assign && at? "=" ts && !at? "==" ts && !at? "=>" ts then
      let mark ← op "="
      let rhs ← rightOperand rules records Precedence.assign
      rules (.climb ⟨.operation lhs.node mark rhs.node, .plain⟩ records base)
    else if base ≤ Precedence.range && at? ".." ts then
      return ⟨.seq (lhs.node :: (← rangeTail rules records)), .range⟩
    else if base ≤ Precedence.cast && peekWord "as" ts then
      let cast ← word "as"
      let type ← rules (.type false)
      require (!bindsCast (← get))
      rules (.climb ⟨.operation lhs.node cast type.node, .plain⟩ records base)
    else return lhs

/-- An expression. -/
def exprGoal (rules : Rules) (records : Bool) : Parser Parsed := do
  let lhs ← rules (.unary records)
  rules (.climb lhs records 0)

/-! ## Operands -/

/-- Whether the tokens can begin an expression after `return`, `break` or `yield`. -/
def peekExpression (ts : List Token) : Bool :=
  peekAnyWord ts || peekGroup .paren ts || peekGroup .bracket ts || peekGroup .brace ts ||
    peekLiteral ts || (at? "!" ts && !at? "!=" ts) ||
    (at? "-" ts && !at? "-=" ts && !at? "->" ts) || (at? "*" ts && !at? "*=" ts) ||
    (at? "|" ts && !at? "|=" ts) || (at? "&" ts && !at? "&=" ts) || at? ".." ts ||
    (at? "<" ts && !at? "<=" ts && !at? "<<=" ts) || at? "::" ts || peekLifetime ts || at? "#" ts

/-- The fields of a record literal, whether a comma ends them, and what fills the others. -/
def recordFields (rules : Rules) : Parser (List Node × Bool × List Token × List Node) := do
  let field : Parser Node := do
    let attributes ← outerAttributes rules
    let name ← member
    if (← ahead (at? ":")) || !name.isNamed then
      let _ ← op ":"
      return .field attributes name false (← rules (.expr true)).node
    else
      let own : PathName :=
        { rooted := false, qualified := false, generic := false, segments := [name] }
      return .field attributes name true (.path own [.tokens [name.token]])
  let rec go : Nat → Bool → Parser (List Node × Bool × List Token × List Node)
    | 0, _ => failure
    | n + 1, after => do
      if ← atEnd then return ([], after, [], [])
      if ← ahead (at? "..") then
        let dots ← op ".."
        if ← atEnd then return ([], after, dots, [])
        let rest ← rules (.expr true)
        return ([], after, dots, [rest.node])
      let first ← field
      if ← atEnd then return ([first], false, [], [])
      let _ ← op ","
      let (fields, trailing, dots, rest) ← go n true
      return (first :: fields, trailing, dots, rest)
  go ((← get).length + 2) false

/-- An expression that begins with a path: a macro call, a record literal or the path itself. -/
def pathExpression (rules : Rules) (records : Bool) : Parser Parsed := do
  let path ← qualifiedPath rules true
  let ts ← get
  if at? "!" ts && !at? "!=" ts && path.name.isPlain then
    return (← macroTail rules path.parts (pure [])).1
  else if records && peekGroup .brace ts then
    let (place, fields, trailing, dots, rest) ← within .brace (recordFields rules)
    return ⟨.record [] path.name path.parts place fields trailing dots rest, .plain⟩
  else return ⟨.path path.name path.parts, .plain⟩

/-- An expression in round brackets, or a tuple. -/
def parenExpression (rules : Rules) : Parser Parsed := do
  let (place, elements, trailing) ← within .paren (commaList (rules (.expr true)))
  match elements, trailing with
  | [e], false => return ⟨.paren place e.node, .plain⟩
  | _, _ => return ⟨.group .paren place (withCommas (elements.map (·.node)) trailing), .plain⟩

/-- An array, by its elements or by one element and a length. -/
def bracketExpression (rules : Rules) : Parser Parsed := do
  let (place, parts) ← within .bracket do
    if ← atEnd then return []
    let first ← rules (.expr true)
    if ← ahead (at? ";") then
      let semi ← op ";"
      return [first.node, .tokens semi, (← rules (.expr true)).node]
    else if ← atEnd then return [first.node]
    else
      let separator ← op ","
      let (more, trailing) ← commaList (rules (.expr true))
      return first.node :: .tokens separator :: withCommas (more.map (·.node)) trailing
  return ⟨.group .bracket place parts, .plain⟩

/-- A parameter of a closure. -/
def closureParam (rules : Rules) : Parser Node := do
  let attributes ← outerAttributes rules
  let p ← rules .pattern
  if ← ahead (at? ":") then
    let _ ← op ":"
    return Node.withAttributes attributes (.typed p.node (← rules (.type true)).node)
  else return Node.withAttributes attributes p.node

/-- The parameters of a closure with the commas between them. -/
def closureParams (rules : Rules) : Parser (List Node × Bool) := do
  let rec go : Nat → Parser (List Node × Bool)
    | 0 => failure
    | n + 1 => do
      if ← ahead (at? "|") then return ([], false)
      let p ← closureParam rules
      if ← ahead (at? "|") then return ([p], false)
      let _ ← op ","
      let (rest, trailing) ← go n
      return (p :: rest, trailing || rest.isEmpty)
  go ((← get).length + 2)

/-- A closure. -/
def closureExpression (rules : Rules) (records : Bool) : Parser Parsed := do
  let lifetimes ← boundLifetimes rules
  let constness ← word? "const"
  let movability ← word? "static"
  let asyncness ← word? "async"
  let capture ← word? "move"
  let open1 ← op "|"
  let (params, trailing) ← closureParams rules
  let close1 ← op "|"
  let head := lifetimes ++
    [.tokens (constness ++ movability ++ asyncness ++ capture), .tokens open1] ++
    withCommas params trailing ++ [.tokens close1]
  if ← ahead (at? "->") then
    let output ← returnType rules true
    let body ← rules .block
    return ⟨.scope params (head ++ output ++ [body.node]), .plain⟩
  else
    let body ← rules (.expr records)
    return ⟨.scope params (head ++ [body.node]), .plain⟩

/-- A condition with its blocks. -/
def ifExpression (rules : Rules) : Nat → Parser (List Node)
  | 0 => failure
  | bound + 1 => do
    let w ← word "if"
    let condition ← rules (.expr false)
    let block ← rules .block
    let parts := [.tokens w, condition.node, block.node]
    if ← ahead (peekWord "else") then
      let otherwise ← word "else"
      if ← ahead (peekWord "if") then
        return parts ++ [.tokens otherwise] ++ (← ifExpression rules bound)
      else return parts ++ [.tokens otherwise, (← rules .block).node]
    else return parts

/-- Whether an expression as the body of a match arm needs a comma after it. -/
def needsComma (e : Parsed) : Bool :=
  e.shape != .blockLike

/-- An arm of a match. -/
def matchArm (rules : Rules) : Parser (List Node) := do
  let attributes ← outerAttributes rules
  let p ← rules .alternatives
  let guard ← if ← ahead (peekWord "if") then do
      let w ← word "if"
      pure [.tokens w, (← rules (.expr true)).node]
    else pure []
  let arrow ← op "=>"
  let body ← rules .leading
  let separator ← if needsComma body && !(← atEnd) then op "," else op? ","
  return attributes ++ [p.node] ++ guard ++ [.tokens arrow, body.node, .tokens separator]

/-- An expression that begins with a word for control flow or a block. -/
def controlExpression (rules : Rules) : Parser Parsed := do
  let ts ← get
  if peekWord "if" ts then
    return ⟨.seq (← ifExpression rules (ts.length + 1)), .blockLike⟩
  else if peekWord "while" ts then
    let w ← word "while"
    let condition ← rules (.expr false)
    let body ← rules .body
    return ⟨.seq (Node.headed [.tokens w, condition.node] body.node), .blockLike⟩
  else if peekWord "for" ts then
    let w ← word "for"
    let p ← rules .alternatives
    let i ← word "in"
    let source ← rules (.expr false)
    let body ← rules .body
    return ⟨.seq (Node.headed [.tokens w, p.node, .tokens i, source.node] body.node), .blockLike⟩
  else if peekWord "loop" ts then
    let w ← word "loop"
    let body ← rules .body
    return ⟨.seq (Node.headed [.tokens w] body.node), .blockLike⟩
  else if peekWord "match" ts then
    let w ← word "match"
    let subject ← rules (.expr false)
    let (place, attributes, arms) ← within .brace do
      let attributes ← innerAttributes rules
      return (attributes, (← untilEnd (matchArm rules)).flatten)
    let body := Node.bodied [] attributes (.group .brace place arms)
    return ⟨.seq (Node.headed [.tokens w, subject.node] body), .blockLike⟩
  else if peekWords ["unsafe", "const"] ts then
    let w ← anyWord
    let body ← rules .body
    return ⟨.seq (Node.headed [.tokens [w.token]] body.node), .blockLike⟩
  else if peekWord "try" ts then
    let w ← word "try"
    return ⟨.seq [.tokens w, (← rules .block).node], .blockLike⟩
  else
    let body ← rules .body
    return ⟨.seq (Node.headed [] body.node), .blockLike⟩

/-- A loop or block with a label. -/
def labeledExpression (rules : Rules) : Parser Parsed := do
  let label ← lifetime
  let colon ← op ":"
  require (← ahead fun ts => peekWords ["while", "for", "loop"] ts || peekGroup .brace ts)
  let e ← controlExpression rules
  return ⟨.seq [.tokens label, .tokens colon, e.node], .blockLike⟩

/-- A jump with the value it may carry. -/
def jumpExpression (rules : Rules) (records : Bool) : Parser Parsed := do
  let ts ← get
  if peekWord "continue" ts then
    let w ← word "continue"
    let label ← if ← ahead peekLifetime then lifetime else pure []
    return ⟨.tokens (w ++ label), .plain⟩
  else if peekWord "break" ts then
    let w ← word "break"
    let label ← if ← ahead peekLifetime then lifetime else pure []
    require (label.isEmpty || !(← ahead (at? ":")))
    let next ← get
    if peekExpression next && (records || !peekGroup .brace next) then
      return ⟨.seq [.tokens (w ++ label), (← rules (.expr records)).node], .plain⟩
    else return ⟨.tokens (w ++ label), .plain⟩
  else
    let w ← anyWord
    if ← ahead peekExpression then
      return ⟨.seq [.tokens [w.token], (← rules (.expr true)).node], .plain⟩
    else return ⟨.tokens [w.token], .plain⟩

/-- Whether the tokens begin a closure. -/
def peekClosure (ts : List Token) : Bool :=
  at? "|" ts || peekWord "move" ts ||
    (peekWord "for" ts && second (at? "<") ts && (third peekLifetime ts || third (at? ">") ts)) ||
    (peekWord "const" ts && !second (peekGroup .brace) ts) || peekWord "static" ts ||
    (peekWord "async" ts && (second (at? "|") ts || second (peekWord "move") ts))

/-- An operand without unary operators and without what follows it. -/
def atom (rules : Rules) (records : Bool) : Parser Parsed := do
  let ts ← get
  if peekLiteral ts then return ⟨← literal, .plain⟩
  else if peekWord "async" ts && (second (peekGroup .brace) ts ||
      (second (peekWord "move") ts && third (peekGroup .brace) ts)) then
    let w ← word "async"
    let capture ← word? "move"
    return ⟨.seq [.tokens (w ++ capture), (← rules .block).node], .plain⟩
  else if peekWord "try" ts && second (peekGroup .brace) ts then controlExpression rules
  else if peekClosure ts then closureExpression rules records
  else if peekWord "builtin" ts && second (at? "#") ts then
    let _ ← word "builtin"
    let _ ← op "#"
    let _ ← identifier
    let _ ← rawGroup .paren
    return ⟨.tokens (← since ts), .plain⟩
  else if peekPath ts || (peekWord "try" ts && (second (at? "!") ts || second (at? "::") ts)) then
    pathExpression rules records
  else if peekGroup .paren ts then parenExpression rules
  else if peekWord "become" ts then
    let _ ← word "become"
    let _ ← rules (.expr true)
    return ⟨.tokens (← since ts), .plain⟩
  else if peekWords ["break", "continue", "return", "yield"] ts then
    jumpExpression rules records
  else if peekGroup .bracket ts then bracketExpression rules
  else if peekWord "let" ts then
    let w ← word "let"
    let p ← rules .alternatives
    let eq ← op "="
    let lhs ← rules (.unary records)
    let value ← rules (.climb lhs records Precedence.compare)
    return ⟨.seq [.tokens w, p.node, .tokens eq, value.node], .plain⟩
  else if peekWords ["if", "while", "for", "loop", "match", "unsafe", "const"] ts ||
      peekGroup .brace ts then
    controlExpression rules
  else if at? ".." ts then return ⟨.seq (← rangeTail rules records), .range⟩
  else if peekWord "_" ts then return ⟨.tokens (← word "_"), .plain⟩
  else if peekLifetime ts then labeledExpression rules
  else failure

/-- The indices a literal after a dot stands for, with a final dot if there is one. -/
def tupleIndices (text : String) : Option (List String × Bool) :=
  if !isNumber text || !text.toList.contains '.' then none
  else
    let pieces := Text.splitAtChar '.' text.toList
    let trailing := text.toList.getLast? == some '.'
    let pieces := if trailing then pieces.dropLast else pieces
    some (pieces.map String.ofList, trailing)

/-- Element accesses one after the other. -/
def indexAccesses (base : Node) (dot : List Token) (place : Position) : List String → Node
  | [] => base
  | index :: rest =>
    indexAccesses (.seq [base, .tokens (dot ++ [.literal index place])]) dot place rest

/-- What follows a dot after an operand. -/
def afterDot (rules : Rules) (e : Parsed) (dot : List Token) : Parser Parsed := do
  if ← ahead (peekWord "await") then
    return ⟨.seq [e.node, .tokens (dot ++ (← word "await"))], .plain⟩
  let name ← member
  let isNamed := name.isNamed
  let turbofish ← if isNamed && (← ahead (at? "::")) then do
      let colons ← op "::"
      pure (.tokens colons :: (← genericArguments rules))
    else pure []
  if isNamed && (!turbofish.isEmpty || (← ahead (peekGroup .paren))) then
    let (place, args, trailing) ← within .paren (commaList (rules (.expr true)))
    return ⟨.methodCall [] e.node dot name turbofish place (args.map (·.node)) trailing, .plain⟩
  else if isNamed then return ⟨.seq [e.node, .tokens (dot ++ [name.token])], .plain⟩
  else return ⟨.seq [e.node, .tokens (dot ++ [.literal name.name name.place])], .plain⟩

/-- What follows an operand: calls, accesses, indexing and question marks. -/
def trailers (rules : Rules) : Nat → Parsed → Parser Parsed
  | 0, e => return e
  | bound + 1, e => do
    let ts ← get
    if peekGroup .paren ts then
      let (place, args, trailing) ← within .paren (commaList (rules (.expr true)))
      trailers rules bound ⟨.call e.node place (args.map (·.node)) trailing, .plain⟩
    else if at? "." ts && !at? ".." ts && e.shape != .range then
      let dot ← op "."
      match ← get with
      | .literal text place :: rest =>
        match tupleIndices text with
        | some (pieces, final) =>
          match pieces.mapM elementPlace? with
          | none => failure
          | some places =>
            set rest
            let accessed : Parsed :=
              ⟨indexAccesses e.node dot place (places.map toString), .plain⟩
            if final then trailers rules bound (← afterDot rules accessed dot)
            else trailers rules bound accessed
        | none => trailers rules bound (← afterDot rules e dot)
      | _ => trailers rules bound (← afterDot rules e dot)
    else if peekGroup .bracket ts then
      let (place, index) ← within .bracket (rules (.expr true))
      trailers rules bound ⟨.seq [e.node, .group .bracket place [index.node]], .plain⟩
    else if at? "?" ts && e.shape != .range then
      let mark ← op "?"
      trailers rules bound ⟨.seq [e.node, .tokens mark], .plain⟩
    else return e

/-- An operand with its unary operators. -/
def unaryGoal (rules : Rules) (records : Bool) : Parser Parsed := do
  let attributes ← outerAttributes rules
  let ts ← get
  if at? "&" ts then
    let amp ← op "&"
    let isRaw ← ahead fun ts =>
      peekWord "raw" ts && (second (peekWord "mut") ts || second (peekWord "const") ts)
    if isRaw then
      let raw ← word "raw"
      let kind ← anyWord
      let e ← rules (.unary records)
      return ⟨Node.withAttributes attributes
        (.seq [.tokens (amp ++ raw ++ [kind.token]), e.node]), .plain⟩
    else
      let mutable ← word? "mut"
      let e ← rules (.unary records)
      return ⟨Node.withAttributes attributes
        (.reference [.tokens (amp ++ mutable)] e.node), .plain⟩
  else if at? "*" ts then
    let star ← op "*"
    let e ← rules (.unary records)
    return ⟨Node.withAttributes attributes (.deref star e.node), .plain⟩
  else if at? "!" ts || at? "-" ts then
    let mark ← if at? "!" ts then op "!" else op "-"
    let e ← rules (.unary records)
    return ⟨Node.withAttributes attributes (.seq [.tokens mark, e.node]), .plain⟩
  else
    let e ← atom rules records
    let e ← trailers rules ((← get).length + 1) e
    require (attributes.isEmpty || e.shape != .range)
    return ⟨Node.withAttributes attributes e.node, e.shape⟩

/-- An expression at the start of a statement or match arm. -/
def leadingGoal (rules : Rules) : Parser Parsed := do
  let attributes ← outerAttributes rules
  let ts ← get
  let isFor := peekWord "for" ts &&
    !(second (at? "<") ts && (third peekLifetime ts || third (at? ">") ts))
  let isControl := isFor || peekWords ["if", "while", "loop", "match", "unsafe"] ts ||
    (peekWords ["try", "const"] ts && second (peekGroup .brace) ts) || peekGroup .brace ts
  if isControl || peekLifetime ts then
    let e ← if isControl then controlExpression rules else labeledExpression rules
    if ← ahead fun ts => (at? "." ts && !at? ".." ts) || at? "?" ts then
      let e ← trailers rules ((← get).length + 1) e
      rules (.climb ⟨Node.withAttributes attributes e.node, .plain⟩ true 0)
    else return ⟨Node.withAttributes attributes e.node, .blockLike⟩
  else
    let e ← rules (.unary true)
    rules (.climb ⟨Node.withAttributes attributes e.node, e.shape⟩ true 0)

end SchemaLint.Code
