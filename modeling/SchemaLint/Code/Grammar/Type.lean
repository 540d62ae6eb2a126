import SchemaLint.Code.Grammar.Attribute

/-!
# Paths, types, bounds and generic parameters

* `genericArguments`: arguments in angle brackets.
* `qualifiedPath`: a path, or a member of a type in angle brackets.
* `bound`, `bounds`: what a type or lifetime is required to satisfy.
* `typeGoal`: a type.
* `generics`, `whereClause`: the parameters of an item and their conditions.
-/

namespace SchemaLint.Code

open SchemaLint.Code.Parser

/-! ## Paths -/

/-- An element of a list in angle brackets: whether it is a lifetime, and the comma after it. -/
structure AngleElement where
  /-- Whether the element is a lifetime. -/
  isLifetime : Bool
  /-- The element. -/
  node : Node
  /-- Whether a comma follows. -/
  comma : Bool

/-- Elements of one kind, given whether a comma is due before the next one. -/
def angleRun (due : Bool) : List AngleElement → List Node × Bool
  | [] => ([], due)
  | e :: rest =>
    let (nodes, last) := angleRun (!e.comma) rest
    ((if due then [.tokens [Node.comma]] else []) ++ [e.node] ++
      (if e.comma then [.tokens [Node.comma]] else []) ++ nodes, last)

/-- Elements in the order in which they are written out, lifetimes first. -/
def orderElements (elements : List AngleElement) : List Node :=
  let (lifetimes, due) := angleRun false (elements.filter (·.isLifetime))
  lifetimes ++ (angleRun due (elements.filter fun e => !e.isLifetime)).1

/-- Elements with commas between them up to a closing angle bracket. -/
def angleList (element : Parser (Bool × Node)) : Parser (List AngleElement) := do
  let rec go : Nat → Parser (List AngleElement)
    | 0 => failure
    | n + 1 => do
      if ← ahead (at? ">") then return []
      let (isLifetime, node) ← element
      if ← ahead (at? ">") then return [⟨isLifetime, node, false⟩]
      let _ ← op ","
      return ⟨isLifetime, node, true⟩ :: (← go n)
  go ((← get).length + 2)

/-- A constant argument: a literal, a name or a block. -/
def constArgument (rules : Rules) : Parser Node := do
  let ts ← get
  if peekLiteral ts then literal
  else if peekIdent ts then return .tokens [(← identifier).token]
  else return (← rules .body).node

/-- Whether the tokens begin with a constant argument that is no name. -/
def peekConstant (ts : List Token) : Bool :=
  peekLiteral ts || peekGroup .brace ts

/-- Lifetimes joined by plus signs, up to a token that ends them. -/
def lifetimeBounds (ends : List Token → Bool) : Parser (List Node) := do
  let rec go : Nat → Parser (List Node)
    | 0 => failure
    | n + 1 => do
      if ← ahead ends then return []
      let l ← lifetime
      if ← ahead (at? "+") then
        let plus ← op "+"
        return .tokens l :: .tokens plus :: (← go n)
      else return [.tokens l]
  go ((← get).length + 2)

/-- A lifetime parameter. -/
def lifetimeParam : Parser Node := do
  let l ← lifetime
  if ← ahead (at? ":") then
    let colon ← op ":"
    let bs ← lifetimeBounds fun ts => at? "," ts || at? ">" ts
    return .seq (.tokens l :: .tokens colon :: bs)
  else return .tokens l

/-- Lifetimes introduced for what follows. -/
def boundLifetimes (rules : Rules) : Parser (List Node) := do
  if ← ahead (peekWord "for") then
    let intro ← word "for"
    let lt ← op "<"
    let elements ← angleList do
      let attributes ← outerAttributes rules
      return (true, .seq (attributes ++ [← lifetimeParam]))
    let gt ← op ">"
    return .tokens intro :: .tokens lt :: orderElements elements ++ [.tokens gt]
  else return []

/-- The result type after an arrow. -/
def returnType (rules : Rules) (plus : Bool) : Parser (List Node) := do
  if ← ahead (at? "->") then
    let arrow ← op "->"
    return [.tokens arrow, (← rules (.type plus)).node]
  else return []

/-- Arguments in round brackets, as of a function type. -/
def parenArguments (rules : Rules) : Parser (List Node) := do
  let (place, args, trailing) ← within .paren (commaList (rules (.type true)))
  let output ← returnType rules false
  return .group .paren place (withCommas (args.map (·.node)) trailing) :: output

/-- A bound, given whether captures and constness are allowed. -/
def traitBound (rules : Rules) (allowConst : Bool) : Parser Node := do
  let begin ← get
  let lifetimes ← boundLifetimes rules
  let isConst ← if ← ahead (peekGroup .bracket) then do
      let _ ← within .bracket (word "const")
      pure true
    else if ← ahead (peekWord "const") then do
      let _ ← word "const"
      pure true
    else if ← ahead fun ts => at? "~" ts && second (peekWord "const") ts then do
      let _ ← op "~"
      let _ ← word "const"
      pure true
    else pure false
  require (!isConst || allowConst)
  let maybe ← op? "?"
  let more ← if lifetimes.isEmpty && !maybe.isEmpty then boundLifetimes rules else pure []
  let path ← rules (.type false)
  let isPath : Bool := match path.node with | .path name _ => !name.qualified | _ => false
  require isPath
  if isConst then return .tokens (← since begin)
  else return .seq (lifetimes ++ [.tokens maybe] ++ more ++ [path.node])

/-- One bound: a lifetime, a trait, or the captures of an opaque type. -/
def bound (rules : Rules) (allowCaptures allowConst : Bool) : Parser Node := do
  let ts ← get
  if peekLifetime ts then return .tokens (← lifetime)
  else if peekWord "use" ts then
    require allowCaptures
    let w ← word "use"
    let lt ← op "<"
    let elements ← angleList do
      if ← ahead peekLifetime then return (true, .tokens (← lifetime))
      else if ← ahead (peekWord "Self") then return (false, .tokens (← word "Self"))
      else return (false, .tokens [(← identifier).token])
    let gt ← op ">"
    return .seq (.tokens w :: .tokens lt :: orderElements elements ++ [.tokens gt])
  else if peekGroup .paren ts then
    let (place, b) ← within .paren (traitBound rules allowConst)
    return .group .paren place [b]
  else traitBound rules allowConst

/-- Whether the tokens begin a further bound. -/
def peekBound (ts : List Token) : Bool :=
  peekAnyWord ts || at? "::" ts || at? "?" ts || peekLifetime ts || peekGroup .paren ts

/-- Bounds joined by plus signs, up to a token that ends them. -/
def boundsUntil (rules : Rules) (ends : List Token → Bool) : Parser (List Node) := do
  let rec go : Nat → Parser (List Node)
    | 0 => failure
    | n + 1 => do
      if ← ahead ends then return []
      let b ← bound rules false true
      if ← ahead (at? "+") then
        let plus ← op "+"
        return b :: .tokens plus :: (← go n)
      else return [b]
  go ((← get).length + 2)

/-- At least one bound, and more after plus signs if they are allowed. -/
def bounds (rules : Rules) (plus allowCaptures allowConst : Bool) : Parser (List Node) := do
  let rec go : Nat → Parser (List Node)
    | 0 => failure
    | n + 1 => do
      let b ← bound rules allowCaptures allowConst
      if plus && (← ahead (at? "+")) then
        let sign ← op "+"
        if ← ahead peekBound then return b :: .tokens sign :: (← go n)
        else return [b, .tokens sign]
      else return [b]
  go ((← get).length + 2)

/-- Whether a bound is a lifetime. -/
def isLifetimeBound : Node → Bool
  | .tokens [.lifetime ..] => true
  | .tokens [.punct '+' _ _] => true
  | _ => false

/-- An argument in angle brackets. -/
def genericArgument (rules : Rules) : Parser (Bool × Node) := do
  let ts ← get
  if peekLifetime ts && !second (at? "+") ts then return (true, .tokens (← lifetime))
  else if peekConstant ts then return (false, ← constArgument rules)
  else
    let argument ← rules (.type true)
    let isName : Bool :=
      match argument.node with
      | .path name _ => !name.qualified && !name.rooted && name.segments.length == 1
      | _ => false
    if isName && (← ahead (at? "=")) then
      let eq ← op "="
      let value ← if ← ahead peekConstant then constArgument rules
        else pure (← rules (.type true)).node
      return (false, .seq [argument.node, .tokens eq, value])
    else if isName && (← ahead (at? ":")) then
      let colon ← op ":"
      let bs ← boundsUntil rules fun ts => at? "," ts || at? ">" ts
      return (false, .seq (argument.node :: .tokens colon :: bs))
    else return (false, argument.node)

/-- Arguments in angle brackets. -/
def genericArguments (rules : Rules) : Parser (List Node) := do
  let lt ← op "<"
  let elements ← angleList (genericArgument rules)
  let gt ← op ">"
  return .tokens lt :: orderElements elements ++ [.tokens gt]

/-- A path segment with its arguments, which in an expression need a double colon in front. -/
def pathSegment (rules : Rules) (inExpr : Bool) : Parser (Ident × List Node) := do
  if ← ahead (peekWords ["super", "self", "crate", "try"]) then
    return (← anyWord, [])
  let name ← if ← ahead (peekWord "Self") then anyWord else identifier
  let ts ← get
  if !inExpr && at? "<" ts && !at? "<=" ts && !at? "<<=" ts then
    return (name, ← genericArguments rules)
  else if at? "::" ts && third (at? "<") ts then
    let colons ← op "::"
    return (name, .tokens colons :: (← genericArguments rules))
  else return (name, [])

/-- The parts of a path read so far. -/
structure PathParts where
  /-- The names. -/
  name : PathName
  /-- All parts in order. -/
  parts : List Node
  /-- Whether the last segment has arguments. -/
  closed : Bool

/-- A path with one more segment. -/
def PathParts.push (p : PathParts) (colons : List Token) (segment : Ident × List Node) :
    PathParts where
  name := { p.name with
    generic := p.name.generic || !segment.2.isEmpty
    segments := p.name.segments ++ [segment.1] }
  parts := p.parts ++ [.tokens colons, .tokens [segment.1.token]] ++ segment.2
  closed := !segment.2.isEmpty

/-- The segments that follow, unless a group in round brackets does. -/
def pathRest (rules : Rules) (inExpr : Bool) (p : PathParts) : Parser PathParts := do
  let more ← repeatAll do
    if ← ahead fun ts => at? "::" ts && !third (peekGroup .paren) ts then
      let colons ← op "::"
      return some (colons, ← pathSegment rules inExpr)
    else return none
  return more.foldl (fun path (colons, segment) => path.push colons segment) p

/-- A path without a type in angle brackets. -/
def simplePath (rules : Rules) (inExpr : Bool) : Parser PathParts := do
  let lead ← op? "::"
  let first ← pathSegment rules inExpr
  let empty : PathParts :=
    ⟨{ rooted := !lead.isEmpty, qualified := false, generic := false, segments := [] }, [], false⟩
  pathRest rules inExpr (empty.push lead first)

/-- A path, or a member of a type in angle brackets. -/
def qualifiedPath (rules : Rules) (inExpr : Bool) : Parser PathParts := do
  if !(← ahead (at? "<")) then simplePath rules inExpr
  else
    let lt ← op "<"
    let self ← rules (.type true)
    let start : PathParts ← if ← ahead (peekWord "as") then do
        let cast ← word "as"
        let trait ← simplePath rules false
        let gt ← op ">"
        pure {
          name := { trait.name with qualified := true }
          parts := [.tokens lt, self.node, .tokens cast] ++ trait.parts ++ [.tokens gt]
          closed := false : PathParts }
      else do
        let gt ← op ">"
        pure {
          name := { rooted := true, qualified := true, generic := false, segments := [] }
          parts := [.tokens lt, self.node, .tokens gt]
          closed := false : PathParts }
    let colons ← op "::"
    let first ← pathSegment rules inExpr
    let more ← repeatAll do
      if ← ahead (at? "::") then
        let colons ← op "::"
        return some (colons, ← pathSegment rules inExpr)
      else return none
    return ((colons, first) :: more).foldl
      (fun path (colons, segment) => path.push colons segment) start

/-- Arguments in round brackets after a path whose last segment has none. -/
def functionArguments (rules : Rules) : Nat → PathParts → Parser PathParts
  | 0, p => return p
  | bound + 1, p => do
    let follows ← ahead fun ts =>
      peekGroup .paren ts || (at? "::" ts && third (peekGroup .paren) ts)
    if p.closed || !follows then return p
    let _ ← op? "::"
    let args ← parenArguments rules
    let again : Bool :=
      match args with
      | [_] => true
      | [_, _, .paren ..] => true
      | _ => false
    let called : PathParts :=
      { p with name := { p.name with generic := true }, parts := p.parts ++ args, closed := true }
    if again then functionArguments rules bound (← pathRest rules false called)
    else return called

/-- A path as a type. -/
def typePath (rules : Rules) : Parser PathParts := do
  let path ← qualifiedPath rules false
  functionArguments rules ((← get).length + 1) path

/-! ## Types -/

/-- The calling convention of a function. -/
def abi : Parser (List Node) := do
  if ← ahead (peekWord "extern") then
    let w ← word "extern"
    match ← get with
    | .literal text place :: rest =>
      if text.toList.head? == some '"' || text.toList.head? == some 'r' then
        set rest
        return [.tokens w, .tokens [.literal text place]]
      else return [.tokens w]
    | _ => return [.tokens w]
  else return []

/-- An argument of a function type. -/
def functionTypeArgument (rules : Rules) : Parser Node := do
  let attributes ← outerAttributes rules
  if ← ahead (at? "...") then
    return .seq (attributes ++ [.tokens (← op "...")])
  let named ← ahead fun ts =>
    (peekIdent ts || peekWord "_" ts || peekWord "self" ts) && second (at? ":") ts &&
      !second (at? "::") ts
  if named then
    let name ← anyWord
    let colon ← op ":"
    if ← ahead (at? "...") then
      return .seq (attributes ++ [.tokens [name.token], .tokens colon, .tokens (← op "...")])
    let type ← rules (.type true)
    return .seq (attributes ++ [.tokens [name.token], .tokens colon, type.node])
  else if ← ahead fun ts => peekWord "mut" ts && second (peekWord "self") ts then
    let m ← word "mut"
    let s ← word "self"
    if ← ahead (at? ":") then
      let colon ← op ":"
      let type ← rules (.type true)
      return .seq (attributes ++ [.tokens m, .tokens s, .tokens colon, type.node])
    else return .seq (attributes ++ [.tokens m, .tokens s])
  else return .seq (attributes ++ [(← rules (.type true)).node])

/-- A function type. -/
def functionType (rules : Rules) : Parser (List Node) := do
  let u ← word? "unsafe"
  let convention ← abi
  let f ← word "fn"
  let (place, args, trailing) ← within .paren (commaList (functionTypeArgument rules))
  let output ← returnType rules false
  return [.tokens u] ++ convention ++ [.tokens f, .group .paren place (withCommas args trailing)] ++
    output

/-- Bounds after a plus sign, for a type that is a list of bounds. -/
def furtherBounds (rules : Rules) : Parser (List Node) := do
  let groups ← repeatAll do
    if ← ahead (at? "+") then
      let plus ← op "+"
      if ← ahead peekBound then return some [.tokens plus, ← bound rules false false]
      else return some [.tokens plus]
    else return none
  return groups.flatten

/-- A type in round brackets, or a tuple of types. -/
def parenType (rules : Rules) (plus : Bool) : Parser Parsed := do
  let content : Parser (List Node × Bool × Shape) := do
    if ← atEnd then return ([], true, .plain)
    if ← ahead (at? "?") then return ([← traitBound rules false], false, .bound)
    let first ← rules (.type true)
    if ← atEnd then return ([first.node], false, first.shape)
    let _ ← op ","
    let (rest, trailing) ← commaList (rules (.type true))
    let nodes := first.node :: rest.map (·.node)
    return (withCommas nodes (trailing || rest.isEmpty), true, .plain)
  let (place, nodes, isTuple, shape) ← within .paren content
  match nodes, isTuple with
  | [node], false =>
    let isBound : Bool :=
      shape = .bound || match node with | .path name _ => !name.qualified | _ => false
    let isMaybe : Bool := match node with
      | .seq (.tokens (.punct '?' _ _ :: _) :: _) => true
      | _ => false
    if isBound && (plus || isMaybe) && (← ahead (at? "+")) then
      let more ← furtherBounds rules
      return ⟨.seq (.group .paren place [node] :: more), .plain⟩
    else return ⟨.paren place node, .plain⟩
  | _, _ => return ⟨.group .paren place nodes, .plain⟩

/-- A type in square brackets: a slice or an array. -/
def bracketType (rules : Rules) : Parser Parsed := do
  let (place, parts) ← within .bracket do
    let element ← rules (.type true)
    if ← ahead (at? ";") then
      let semi ← op ";"
      let len ← rules (.expr true)
      pure [element.node, .tokens semi, len.node]
    else pure [element.node]
  return ⟨.group .bracket place parts, .plain⟩

/-- A type that begins with a path. -/
def pathType (rules : Rules) (plus : Bool) (lifetimes : List Node) : Parser Parsed := do
  let path ← typePath rules
  let ts ← get
  if path.name.qualified then return ⟨.path path.name path.parts, .plain⟩
  else if at? "!" ts && !at? "!=" ts && path.name.isPlain then
    return (← macroTail rules path.parts (pure [])).1
  else if !lifetimes.isEmpty || (plus && at? "+" ts) then
    let more ← if plus then furtherBounds rules else pure []
    let shape : Shape := if more.isEmpty then .bound else .plain
    return ⟨.seq (lifetimes ++ [.path path.name path.parts] ++ more), shape⟩
  else return ⟨.path path.name path.parts, .plain⟩

/-- Words a path type can begin with besides identifiers. -/
def pathWords : List String :=
  ["super", "self", "Self", "crate"]

/-- A type. -/
def typeGoal (rules : Rules) (plus : Bool) : Parser Parsed := do
  let lifetimes ← boundLifetimes rules
  let ts ← get
  require (lifetimes.isEmpty || peekIdent ts ||
    peekWords ("fn" :: "unsafe" :: "extern" :: pathWords) ts)
  if peekGroup .paren ts then parenType rules plus
  else if peekWords ["fn", "unsafe", "extern"] ts then
    return ⟨.seq (lifetimes ++ (← functionType rules)), .plain⟩
  else if peekIdent ts || peekWords pathWords ts || at? "::" ts || at? "<" ts then
    pathType rules plus lifetimes
  else if peekWord "dyn" ts then
    let w ← word "dyn"
    let star ← op? "*"
    let bs ← bounds rules plus false false
    require (bs.any fun b => !isLifetimeBound b)
    return ⟨.seq (.tokens w :: .tokens star :: bs), .plain⟩
  else if peekGroup .bracket ts then bracketType rules
  else if at? "*" ts then
    let star ← op "*"
    let kind ← if ← ahead (peekWord "const") then word "const" else word "mut"
    return ⟨.seq [.tokens star, .tokens kind, (← rules (.type false)).node], .plain⟩
  else if at? "&" ts then
    let amp ← op "&"
    let l ← if ← ahead peekLifetime then lifetime else pure []
    let m ← word? "mut"
    return ⟨.reference [.tokens amp, .tokens l, .tokens m] (← rules (.type false)).node, .plain⟩
  else if at? "!" ts then return ⟨.tokens (← op "!"), .plain⟩
  else if peekWord "impl" ts then
    let w ← word "impl"
    let bs ← bounds rules plus true true
    require (bs.any fun b => !isLifetimeBound b)
    return ⟨.seq (.tokens w :: bs), .plain⟩
  else if peekWord "_" ts then return ⟨.tokens (← word "_"), .plain⟩
  else if peekLifetime ts then
    let bs ← bounds rules true false false
    require (bs.any fun b => !isLifetimeBound b)
    return ⟨.seq bs, .plain⟩
  else failure

/-! ## Generic parameters -/

/-- A generic parameter. -/
def genericParam (rules : Rules) : Parser (Bool × Node) := do
  let attributes ← outerAttributes rules
  let ts ← get
  if peekLifetime ts then return (true, .seq (attributes ++ [← lifetimeParam]))
  else if peekIdent ts then
    let name ← identifier
    let colon ← op? ":"
    let bs ← if colon.isEmpty then pure [] else
      boundsUntil rules fun ts => at? "," ts || at? ">" ts || at? "=" ts
    let eq ← op? "="
    let value ← if eq.isEmpty then pure [] else do pure [(← rules (.type true)).node]
    return (false, .seq (attributes ++ [.tokens [name.token], .tokens colon] ++ bs ++
      [.tokens eq] ++ value))
  else if peekWord "const" ts then
    let w ← word "const"
    let name ← identifier
    let colon ← op ":"
    let type ← rules (.type true)
    let eq ← op? "="
    let value ← if eq.isEmpty then pure [] else do pure [← constArgument rules]
    return (false, .seq (attributes ++
      [.tokens w, .tokens [name.token], .tokens colon, type.node, .tokens eq] ++ value))
  else return (false, .seq (attributes ++ [.tokens (← word "_")]))

/-- Elements that are read in the order they stand in and written out lifetimes first. -/
def arrangeElements (elements : List AngleElement) : Node :=
  .arranged (Node.shownAll (orderElements elements)) (elements.map (·.node))

/-- The generic parameters of an item, and whether there are angle brackets. -/
def generics (rules : Rules) : Parser (List Node × Bool) := do
  if ← ahead (at? "<") then
    let lt ← op "<"
    let elements ← angleList (genericParam rules)
    let gt ← op ">"
    if elements.isEmpty then return ([], true)
    else return ([.tokens lt, arrangeElements elements, .tokens gt], true)
  else return ([], false)

/-- Whether angle brackets after `impl` hold generic parameters and not a type. -/
def peekGenerics (ts : List Token) : Bool :=
  at? "<" ts &&
    (second (at? ">") ts || second (at? "#") ts ||
      ((second peekLifetime ts || second peekIdent ts) &&
        (third (at? ">") ts || third (at? ",") ts || (third (at? ":") ts && !third (at? "::") ts) ||
          third (at? "=") ts)) ||
      second (peekWord "const") ts)

/-- Whether a condition or its bounds end here. -/
def endsCondition (ts : List Token) : Bool :=
  ts.isEmpty || peekGroup .brace ts || at? "," ts || at? ";" ts ||
    (at? ":" ts && !at? "::" ts) || at? "=" ts

/-- One condition of a `where` clause. -/
def whereCondition (rules : Rules) : Parser Node := do
  if ← ahead fun ts => peekLifetime ts && second (at? ":") ts then
    let l ← lifetime
    let colon ← op ":"
    let bs ← lifetimeBounds endsCondition
    return .seq (.tokens l :: .tokens colon :: bs)
  else
    let lifetimes ← boundLifetimes rules
    let type ← rules (.type true)
    let colon ← op ":"
    let bs ← boundsUntil rules endsCondition
    return .seq (lifetimes ++ [type.node, .tokens colon] ++ bs)

/-- The conditions of an item, and whether there is a clause at all. -/
def whereClause (rules : Rules) : Parser (List Node × Bool) := do
  if ← ahead (peekWord "where") then
    let w ← word "where"
    require (!(← ahead peekGenerics))
    let rec go : Nat → Parser (List Node)
      | 0 => failure
      | n + 1 => do
        if ← ahead endsCondition then return []
        let condition ← whereCondition rules
        if ← ahead (at? ",") then
          let separator ← op ","
          return condition :: .tokens separator :: (← go n)
        else return [condition]
    let conditions ← go ((← get).length + 2)
    if conditions.isEmpty then return ([], true) else return (.tokens w :: conditions, true)
  else return ([], false)

end SchemaLint.Code
