import SchemaLint.Code.Grammar.Statement

/-!
# Items

* `visibility`, `signature`: what items share.
* `useTree`: the tree of an import declaration.
* `itemGoal`: an item of a file, a module or a block.
* `CodeFile`, `codeFile`: a whole file.

An item that has an unusual form, such as a function without a body, is kept as its tokens.
-/

namespace SchemaLint.Code

open SchemaLint.Code.Parser

/-- A restricted visibility after `pub`, if the brackets hold one. -/
def restriction? (inner : List Token) : Bool :=
  match inner with
  | [.ident name _] => ["crate", "self", "super"].contains name
  | .ident "in" _ :: path => (plainPath.run path).any fun r => r.2.isEmpty
  | _ => false

/-- The visibility of an item, if one is given. -/
def visibility : Parser (List Node) := do
  if ← ahead (peekWord "pub") then
    let w ← word "pub"
    match ← get with
    | .group .paren place inner :: rest =>
      if restriction? inner then
        set rest
        return [.tokens w, .tokens [.group .paren place inner]]
      else return [.tokens w]
    | _ => return [.tokens w]
  else return []

/-! ## Functions -/

/-- Tokens without a word at their front. -/
def skipWord (w : String) (ts : List Token) : List Token :=
  if peekWord w ts then ts.drop 1 else ts

/-- Tokens without a calling convention at their front. -/
def skipAbi (ts : List Token) : List Token :=
  match abi.run ts with
  | some (_, rest) => rest
  | none => ts

/-- Whether the tokens begin a function signature. -/
def peekSignature (ts : List Token) : Bool :=
  peekWord "fn" (skipAbi (skipWord "unsafe" (skipWord "async" (skipWord "const" ts))))

/-- The receiver of a method. -/
def receiver (rules : Rules) : Parser Node := do
  let amp ← op? "&"
  let l ← if !amp.isEmpty && (← ahead peekLifetime) then lifetime else pure []
  let mutable ← word? "mut"
  let self ← word "self"
  let colon ← if amp.isEmpty then op? ":" else pure []
  let type ← if colon.isEmpty then pure [] else do pure [(← rules (.type true)).node]
  return .seq ([.tokens (amp ++ l ++ mutable ++ self), .tokens colon] ++ type)

/-- A parameter of a function. -/
inductive Param
  /-- The receiver of a method. -/
  | receiver (node : Node)
  /-- A pattern with a type. -/
  | typed (node : Node)
  /-- The mark of a variable number of arguments. -/
  | variadic (node : Node)

/-- The node of a parameter. -/
def Param.node : Param → Node
  | .receiver n => n
  | .typed n => n
  | .variadic n => n

/-- Whether a parameter is a receiver. -/
def Param.isReceiver : Param → Bool
  | .receiver _ => true
  | _ => false

/-- Whether a parameter stands for any number of arguments. -/
def Param.isVariadic : Param → Bool
  | .variadic _ => true
  | _ => false

/-- The parameter as a binding, if it is one. -/
def Param.binding? : Param → Option Node
  | .typed n => some n
  | _ => none

/-- A parameter of a function. -/
def functionParam (rules : Rules) : Parser Param := do
  let attributes ← outerAttributes rules
  if ← ahead (at? "...") then
    return .variadic (.seq (attributes ++ [.tokens (← op "...")]))
  let ts ← get
  match (receiver rules).run ts with
  | some (node, rest) =>
    set rest
    return .receiver (Node.withAttributes attributes node)
  | none =>
    if peekIdent ts && second (at? "<") ts then
      let type ← rules (.type true)
      let wild : Node := .tokens [.ident "_" type.node.place]
      return .typed (Node.withAttributes attributes (.typed wild type.node))
    else
      let p ← rules .pattern
      let colon ← op ":"
      if ← ahead (at? "...") then
        return .variadic (.seq (attributes ++ [p.node, .tokens colon, .tokens (← op "...")]))
      else
        let type ← rules (.type true)
        return .typed (Node.withAttributes attributes (.typed p.node type.node))

/-- Whether a receiver stands first only and a variable number of arguments last only. -/
def paramsInOrder : List Param → Bool
  | [] => true
  | p :: rest => rest.all (fun q => !q.isReceiver) && (rest.isEmpty || !p.isVariadic) &&
      paramsInOrder rest

/-- A function signature: the parameters that bind names, and all its parts. -/
def signature (rules : Rules) : Parser (List Node × List Node) := do
  let constness ← word? "const"
  let asyncness ← word? "async"
  let safety ← word? "unsafe"
  let convention ← abi
  let f ← word "fn"
  let name ← identifier
  let (params, _) ← generics rules
  let (place, args, trailing) ← within .paren (commaList (functionParam rules))
  require (paramsInOrder args)
  let output ← returnType rules true
  let (conditions, _) ← whereClause rules
  let parts := [.tokens (constness ++ asyncness ++ safety)] ++ convention ++
    [.tokens (f ++ [name.token])] ++ params ++ [.conditioned
      (.group .paren place (withCommas (args.map Param.node) trailing) :: output) conditions]
  return (args.filterMap Param.binding?, parts)

/-! ## Imports -/

/-- The tree of an import declaration and its parts; no tree if a crate root stands inside
braces. -/
def useTree : Nat → Bool → Parser (Option UseTree × List Node)
  | 0, _ => failure
  | bound + 1, allowRoot => do
    let ts ← get
    if peekIdent ts || peekWords ["self", "super", "crate", "try"] ts then
      let name ← anyWord
      if ← ahead (at? "::") then
        let colons ← op "::"
        let (tree, parts) ← useTree bound false
        match tree with
        | some tree => return (some (.path name tree), .tokens (name.token :: colons) :: parts)
        | none => failure
      else if ← ahead (peekWord "as") then
        let cast ← word "as"
        let other ← if ← ahead (peekWord "_") then anyWord else identifier
        return (some (.rename name other), [.tokens (name.token :: cast ++ [other.token])])
      else return (some (.name name), [.tokens [name.token]])
    else if at? "*" ts then return (some .glob, [.tokens (← op "*")])
    else
      let (place, trees, trailing) ← within .brace (commaList do
        let rooted ← if allowRoot then op? "::" else pure []
        let (tree, parts) ← useTree bound (allowRoot && rooted.isEmpty)
        return (if rooted.isEmpty then tree else none, Node.seq parts))
      let node := Node.group .brace place (withCommas (trees.map (·.2)) trailing)
      if trees.all (·.1.isSome) then return (some (.group (trees.filterMap (·.1))), [node])
      else return (none, [node])

/-! ## Types and their members -/

/-- A field with a name. -/
def namedField (rules : Rules) : Parser Node := do
  let attributes ← outerAttributes rules
  let vis ← visibility
  let name ← if ← ahead (peekWord "_") then anyWord else identifier
  let colon ← op ":"
  let type ← rules (.type true)
  return .seq (attributes ++ vis ++ [.tokens (name.token :: colon), type.node])

/-- A field without a name. -/
def tupleField (rules : Rules) : Parser Node := do
  let attributes ← outerAttributes rules
  let vis ← visibility
  let type ← rules (.type true)
  return .seq (attributes ++ vis ++ [type.node])

/-- Fields in curly brackets. -/
def namedFields (rules : Rules) : Parser Node := do
  let (place, fields, trailing) ← within .brace (commaList (namedField rules))
  return .group .brace place (withCommas fields trailing)

/-- Fields in round brackets. -/
def tupleFields (rules : Rules) : Parser Node := do
  let (place, fields, trailing) ← within .paren (commaList (tupleField rules))
  return .group .paren place (withCommas fields trailing)

/-- A variant of an enumeration. -/
def variant (rules : Rules) : Parser Node := do
  let attributes ← outerAttributes rules
  let _ ← visibility
  let name ← identifier
  let fields ← if ← ahead (peekGroup .brace) then do pure [← namedFields rules]
    else if ← ahead (peekGroup .paren) then do pure [← tupleFields rules]
    else pure []
  let eq ← op? "="
  let value ← if eq.isEmpty then pure [] else do pure [(← rules (.expr true)).node]
  return .seq (attributes ++ [.tokens [name.token]] ++ fields ++ [.tokens eq] ++ value)

/-- A struct after its visibility. -/
def structItem (rules : Rules) : Parser (List Node) := do
  let w ← word "struct"
  let name ← identifier
  let (params, _) ← generics rules
  let head := .tokens (w ++ [name.token]) :: params
  let (before, hasClause) ← whereClause rules
  if ← ahead (peekGroup .brace) then return head ++ before ++ [← namedFields rules]
  else if !hasClause && (← ahead (peekGroup .paren)) then
    let fields ← tupleFields rules
    let (conditions, _) ← whereClause rules
    let semi ← op ";"
    return head ++ [.conditioned [fields] conditions, .tokens semi]
  else
    let semi ← op ";"
    return head ++ before ++ [.tokens semi]

/-- An enumeration or union after its visibility. -/
def enumItem (rules : Rules) : Parser (List Node) := do
  let w ← anyWord
  let name ← identifier
  let (params, _) ← generics rules
  let (conditions, _) ← whereClause rules
  let head := .tokens [w.token, name.token] :: params ++ conditions
  if w.name == "enum" then
    let (place, variants, trailing) ← within .brace (commaList (variant rules))
    return head ++ [.group .brace place (withCommas variants trailing)]
  else return head ++ [← namedFields rules]

/-- Where a type alias or an associated type stands. -/
inductive TypeContext
  /-- In a file, a module or a block. -/
  | alias
  /-- In a trait. -/
  | required
  /-- In an implementation. -/
  | provided
  /-- In a foreign module. -/
  | foreign
deriving DecidableEq, Repr

namespace TypeContext

/-- Whether the conditions may stand in front of the definition. -/
def allowsBefore (c : TypeContext) : Bool :=
  c = .alias || c = .foreign

/-- Whether the conditions may stand after the definition. -/
def allowsAfter (c : TypeContext) : Bool :=
  c != .alias

/-- Whether a type is in the form that its context expects, given whether it has bounds and a
definition. -/
def expects (hasBounds hasDefinition : Bool) : TypeContext → Bool
  | .alias | .provided => !hasBounds && hasDefinition
  | .required => true
  | .foreign => !hasBounds && !hasDefinition

end TypeContext

/-- A type alias or associated type after its visibility: its parts and whether it is in the form
that its context expects. -/
def typeItem (rules : Rules) (context : TypeContext) : Parser (List Node × Bool) := do
  let w ← word "type"
  let name ← identifier
  let (params, _) ← generics rules
  let colon ← op? ":"
  let bs ← if colon.isEmpty then pure [] else
    let ends (ts : List Token) : Bool := peekWord "where" ts || at? "=" ts || at? ";" ts
    boundsUntil rules ends
  let (before, hasClause) ← if context.allowsBefore then whereClause rules else pure ([], false)
  let eq ← op? "="
  let definition ← if eq.isEmpty then pure [] else do pure [(← rules (.type true)).node]
  let (after, _) ← if context.allowsAfter && !hasClause then whereClause rules
    else pure ([], false)
  let semi ← op ";"
  let parts := [.tokens (w ++ [name.token])] ++ params ++
    [.conditioned (.conditioned (.tokens colon :: bs) before :: .tokens eq :: definition) after,
      .tokens semi]
  return (parts, context.expects (!colon.isEmpty) (!eq.isEmpty))

/-- A constant after its visibility, and whether it has a value and no parameters. -/
def constItem (rules : Rules) : Parser (List Node × Bool × Bool) := do
  let w ← word "const"
  let name ← if ← ahead (peekWord "_") then anyWord else identifier
  let (params, hasParams) ← generics rules
  let colon ← op ":"
  let type ← rules (.type true)
  let eq ← op? "="
  let value ← if eq.isEmpty then pure [] else do pure [(← rules (.expr true)).node]
  let (conditions, hasClause) ← whereClause rules
  let semi ← op ";"
  let parts := [.tokens (w ++ [name.token])] ++ params ++ [.tokens colon, type.node, .tokens eq] ++
    value ++ conditions ++ [.tokens semi]
  return (parts, !eq.isEmpty, !hasParams && !hasClause)

/-- A macro call as an item. -/
def macroItem (rules : Rules) : Parser (List Node) := do
  let (_, path) ← plainPath
  let name : Parser (List Node) := do
    if ← ahead fun ts => peekIdent ts || peekWord "try" ts then
      return [.tokens [(← anyWord).token]]
    else return []
  let (call, d) ← macroTail rules path name
  if d = .brace then return [call.node]
  else return [call.node, .tokens (← op ";")]

/-- A static after its visibility, and whether it has a type and a value. -/
def staticItem (rules : Rules) : Parser (List Node × Bool) := do
  let w ← word "static"
  let mutable ← word? "mut"
  let name ← identifier
  let head := Node.tokens (w ++ mutable ++ [name.token])
  if ← ahead (at? "=") then
    let eq ← op "="
    let value ← rules (.expr true)
    return ([head, .tokens eq, value.node, .tokens (← op ";")], false)
  else
    let colon ← op ":"
    let type ← rules (.type true)
    if ← ahead (at? ";") then
      return ([head, .tokens colon, type.node, .tokens (← op ";")], false)
    else
      let eq ← op "="
      let value ← rules (.expr true)
      return ([head, .tokens colon, type.node, .tokens eq, value.node, .tokens (← op ";")], true)

/-- Whether the tokens begin a macro call as an item. -/
def peekMacroItem (ts : List Token) : Bool :=
  peekIdent ts || peekWords ["self", "super", "crate"] ts || at? "::" ts

/-- Either the parts of an item or, in an unusual form, its tokens. -/
def itemOrTokens (begin : List Token) (usual : Bool) (parts : List Node) : Parser Node := do
  if usual then return .seq parts else return .tokens (← since begin)

/-- A function given its first token, its attributes and what else stands in front of its signature.
Without a body it is kept as its tokens. -/
def functionItem (rules : Rules) (begin : List Token) (attributes front : List Node) :
    Parser Node := do
  let (params, parts) ← signature rules
  if ← ahead (at? ";") then
    let _ ← op ";"
    return .tokens (← since begin)
  else
    let body ← rules .body
    return .scope params (attributes ++ Node.headed (front ++ parts) body.node)

/-- An item of a trait. -/
def traitMember (rules : Rules) : Parser Node := do
  let begin ← get
  let attributes ← outerAttributes rules
  let vis ← visibility
  let defaultness ← word? "default"
  let plain := vis.isEmpty && defaultness.isEmpty
  let ts ← get
  if peekSignature ts then
    let (params, parts) ← signature rules
    if ← ahead (at? ";") then
      let semi ← op ";"
      if plain then return .scope params (attributes ++ parts ++ [.tokens semi])
      else return .tokens (← since begin)
    else
      let body ← rules .body
      if plain then return .scope params (attributes ++ Node.headed parts body.node)
      else return .tokens (← since begin)
  else if peekWord "const" ts then
    let (parts, _, usual) ← constItem rules
    itemOrTokens begin (usual && plain) (attributes ++ parts)
  else if peekWord "type" ts then
    let (parts, usual) ← typeItem rules .required
    itemOrTokens begin (usual && plain) (attributes ++ parts)
  else
    require (plain && peekMacroItem ts)
    return .seq (attributes ++ (← macroItem rules))

/-- An item of an implementation. -/
def implMember (rules : Rules) : Parser Node := do
  let begin ← get
  let attributes ← outerAttributes rules
  let vis ← visibility
  let defaultness ← if ← ahead fun ts => peekWord "default" ts && !second (at? "!") ts then
      word "default"
    else pure []
  let front := attributes ++ vis ++ [.tokens defaultness]
  let ts ← get
  if peekSignature ts then functionItem rules begin attributes (vis ++ [.tokens defaultness])
  else if peekWord "const" ts then
    let (parts, hasValue, usual) ← constItem rules
    itemOrTokens begin (hasValue && usual) (front ++ parts)
  else if peekWord "type" ts then
    let (parts, usual) ← typeItem rules .provided
    itemOrTokens begin usual (front ++ parts)
  else
    require (vis.isEmpty && defaultness.isEmpty && peekMacroItem ts)
    return .seq (attributes ++ (← macroItem rules))

/-- Members in curly brackets after inner attributes. -/
def members (rules : Rules) (item : Parser Node) : Parser Node := do
  let (place, attributes, content) ← within .brace do
    let attributes ← innerAttributes rules
    return (attributes, ← untilEnd item)
  return .bodied [] attributes (.group .brace place content)

/-- A trait or trait alias after its visibility. -/
def traitItem (rules : Rules) : Parser (List Node) := do
  let safety ← word? "unsafe"
  let auto ← word? "auto"
  let w ← word "trait"
  let name ← identifier
  let (params, _) ← generics rules
  let head := .tokens (safety ++ auto ++ w ++ [name.token]) :: params
  if safety.isEmpty && auto.isEmpty && (← ahead (at? "=")) then
    let eq ← op "="
    let bs ← boundsUntil rules fun ts => peekWord "where" ts || at? ";" ts
    let (conditions, _) ← whereClause rules
    let semi ← op ";"
    return head ++ [.conditioned (.tokens eq :: bs) conditions, .tokens semi]
  else
    let colon ← op? ":"
    let bs ← if colon.isEmpty then pure [] else
      boundsUntil rules fun ts => peekWord "where" ts || peekGroup .brace ts
    let (conditions, _) ← whereClause rules
    let content ← members rules (traitMember rules)
    return Node.headed (head ++ [.conditioned (.tokens colon :: bs) conditions]) content

/-- An implementation after its visibility, and whether it has the usual form. -/
def implItem (rules : Rules) : Parser (List Node × Bool) := do
  let defaultness ← word? "default"
  let safety ← word? "unsafe"
  let w ← word "impl"
  let (params, _) ← if ← ahead peekGenerics then generics rules else pure ([], false)
  let isConst ← ahead fun ts => peekWord "const" ts || (at? "?" ts && second (peekWord "const") ts)
  let constness ← if isConst then do
      let maybe ← op? "?"
      pure (maybe ++ (← word "const"))
    else pure []
  let negative ← if ← ahead fun ts => at? "!" ts && !second (peekGroup .brace) ts then op "!"
    else pure []
  let first ← rules (.type true)
  let head := .tokens (defaultness ++ safety ++ w) :: params
  let subject := [.tokens (constness ++ negative), first.node]
  let isPath : Bool := match first.node with | .path name _ => !name.qualified | _ => false
  let forTrait ← ahead (peekWord "for")
  let target ← if forTrait then do
      let f ← word "for"
      pure [.tokens f, (← rules (.type true)).node]
    else do
      require negative.isEmpty
      pure []
  let (conditions, _) ← whereClause rules
  let content ← members rules (implMember rules)
  return (Node.headed (head ++ [.conditioned (subject ++ target) conditions]) content,
    !isConst && (!forTrait || isPath))

/-- An item of a foreign module. -/
def foreignMember (rules : Rules) : Parser Node := do
  let begin ← get
  let attributes ← outerAttributes rules
  let vis ← visibility
  let safe ← if ← ahead fun ts => peekWord "safe" ts && second peekAnyWord ts then word "safe"
    else pure []
  let front := attributes ++ vis ++ [.tokens safe]
  let ts ← get
  if peekSignature ts then
    let (_, parts) ← signature rules
    if ← ahead (peekGroup .brace) then
      let _ ← rules .body
      return .tokens (← since begin)
    else return .seq (front ++ parts ++ [.tokens (← op ";")])
  else if peekWord "static" ts || (peekWord "unsafe" ts && second (peekWord "static") ts) then
    let safety ← word? "unsafe"
    let (parts, hasValue) ← staticItem rules
    itemOrTokens begin (safety.isEmpty && safe.isEmpty && !hasValue) (front ++ parts)
  else if peekWord "type" ts then
    let (parts, usual) ← typeItem rules .foreign
    itemOrTokens begin usual (front ++ parts)
  else
    require (vis.isEmpty && peekMacroItem ts)
    return .seq (attributes ++ (← macroItem rules))

/-- An item given its first token, its attributes and its visibility. -/
def itemBody (rules : Rules) (begin : List Token) (attributes vis : List Node) : Parser Node := do
  let front := attributes ++ vis
  let ts ← get
  if peekSignature ts then functionItem rules begin attributes vis
  else if peekWord "extern" ts && second (peekWord "crate") ts then
    let w ← word "extern"
    let c ← word "crate"
    let name ← if ← ahead (peekWord "self") then anyWord else identifier
    let rename ← if ← ahead (peekWord "as") then do
        let r ← word "as"
        let other ← if ← ahead (peekWord "_") then anyWord else identifier
        pure (r ++ [other.token])
      else pure []
    let semi ← op ";"
    return .seq (front ++ [.tokens (w ++ c ++ [name.token] ++ rename ++ semi)])
  else if peekWord "extern" ts || (peekWord "unsafe" ts && second (peekWord "extern") ts) then
    require vis.isEmpty
    let safety ← word? "unsafe"
    let convention ← abi
    let content ← members rules (foreignMember rules)
    return .seq (front ++ [.tokens safety] ++ convention ++ [content])
  else if peekWord "use" ts then
    let w ← word "use"
    let lead ← op? "::"
    let (tree, parts) ← useTree (Token.countAll ts + 1) lead.isEmpty
    let semi ← op ";"
    match tree with
    | some tree =>
      return .use tree (front ++ [.tokens (w ++ lead)] ++ parts ++ [.tokens semi])
    | none => return .tokens (← since begin)
  else if peekWord "static" ts then
    let (parts, usual) ← staticItem rules
    itemOrTokens begin usual (front ++ parts)
  else if peekWord "const" ts then
    let (parts, hasValue, usual) ← constItem rules
    itemOrTokens begin (hasValue && usual) (front ++ parts)
  else if peekWord "mod" ts || (peekWord "unsafe" ts && second (peekWord "mod") ts) then
    let safety ← word? "unsafe"
    let w ← word "mod"
    let name ← if ← ahead (peekWord "try") then anyWord else identifier
    let head := Node.tokens (safety ++ w ++ [name.token])
    if ← ahead (at? ";") then return .seq (front ++ [head, .tokens (← op ";")])
    else return .seq (front ++ [head, ← members rules do return (← rules .item).node])
  else if peekWord "type" ts then
    let (parts, usual) ← typeItem rules .alias
    itemOrTokens begin usual (front ++ parts)
  else if peekWord "struct" ts then return .seq (front ++ (← structItem rules))
  else if peekWord "enum" ts || (peekWord "union" ts && second peekIdent ts) then
    return .seq (front ++ (← enumItem rules))
  else if peekWord "trait" ts ||
      (peekWord "unsafe" ts && second (peekWords ["trait", "auto"]) ts) ||
      (peekWord "auto" ts && second (peekWord "trait") ts) then
    return .seq (front ++ (← traitItem rules))
  else if peekWord "impl" ts || (peekWord "unsafe" ts && second (peekWord "impl") ts) ||
      (peekWord "default" ts && !second (at? "!") ts) then
    let (parts, usual) ← implItem rules
    itemOrTokens begin (usual && vis.isEmpty) (front ++ parts)
  else if peekWord "macro" ts then
    let _ ← word "macro"
    let _ ← identifier
    if ← ahead (peekGroup .paren) then
      let _ ← rawGroup .paren
    let _ ← rawGroup .brace
    return .tokens (← since begin)
  else
    require (vis.isEmpty && peekMacroItem ts)
    return .seq (front ++ (← macroItem rules))

/-- An item. -/
def itemGoal (rules : Rules) : Parser Parsed := do
  let begin ← get
  let attributes ← outerAttributes rules
  let vis ← visibility
  return ⟨← itemBody rules begin attributes vis, .plain⟩

/-- The parsed code of a file. -/
structure CodeFile where
  /-- The attributes of the file as a whole. -/
  attributes : List Node
  /-- Its items in order. -/
  items : List Node
deriving Inhabited

/-- All of a file's code in order. -/
def CodeFile.nodes (f : CodeFile) : List Node :=
  f.attributes ++ f.items

/-- A whole file. -/
def codeFile (rules : Rules) : Parser CodeFile := do
  let attributes ← innerAttributes rules
  return ⟨attributes, ← untilEnd do return (← rules .item).node⟩

end SchemaLint.Code
