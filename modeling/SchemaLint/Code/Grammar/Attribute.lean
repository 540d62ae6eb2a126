import SchemaLint.Code.Grammar.Basic

/-!
# Plain paths, macro calls and attributes

* `plainPath`: a path without arguments, as in attributes and macro calls.
* `macroTail`: the rest of a macro call after its path.
* `outerAttributes`, `innerAttributes`: the attributes in front of or inside a construct.
-/

namespace SchemaLint.Code

open SchemaLint.Code.Parser

/-- The segments of a path without arguments, each with the double colon after it. -/
def plainSegments : Nat → Parser (List (Ident × List Token))
  | 0 => failure
  | bound + 1 => do
    require (← ahead fun ts => peekIdent ts || peekWords ["super", "self", "Self", "crate"] ts)
    let name ← anyWord
    let colons ← op? "::"
    if colons.isEmpty then return [(name, [])]
    else return (name, colons) :: (← plainSegments bound)

/-- A path without arguments. -/
def plainPath : Parser (PathName × List Node) := do
  let lead ← op? "::"
  let segments ← plainSegments ((← get).length + 1)
  let name : PathName := {
    rooted := !lead.isEmpty
    qualified := false
    generic := false
    segments := segments.map (·.1) }
  return (name, .tokens lead :: segments.map fun (i, colons) => .tokens (i.token :: colons))

/-- Whether a path can name a macro. -/
def PathName.isPlain (p : PathName) : Bool :=
  !p.qualified && !p.generic

/-- The arguments of a macro call, if its body consists of expressions separated by commas,
semicolons or arrows. -/
def macroArguments (rules : Rules) (body : List Token) : List Node :=
  let argument : Parser Node := do
    let e ← rules (.expr true)
    if ← ahead (at? "=>") then let _ ← op "=>"
    else if ← ahead (at? ",") then let _ ← op ","
    else if ← ahead (at? ";") then let _ ← op ";"
    else require (← atEnd)
    return e.node
  match (untilEnd argument).run body with
  | some (arguments, []) => arguments
  | _ => []

/-- The rest of a macro call after its path, and the shape of the call. -/
def macroTail (rules : Rules) (path : List Node) (name : Parser (List Node)) :
    Parser (Parsed × Delimiter) := do
  let bang ← op "!"
  let named ← name
  let (d, place, body) ← anyGroup
  let parts := path ++ [.tokens bang] ++ named ++ [.tokens [.group d place body]]
  let shape : Shape := if d = .brace then .bracedMacro else .macroCall
  return (⟨.macroCall parts (macroArguments rules body), shape⟩, d)

/-- The content of an attribute. -/
def attributeContent (rules : Rules) : Parser (List Node) := do
  let head ← if ← ahead (peekWord "unsafe") then do
      pure [Node.tokens (← word "unsafe")]
    else do
      pure (← plainPath).2
  match ← get with
  | .group d place body :: rest =>
    set rest
    return head ++ [.tokens [.group d place body]]
  | ts =>
    if at? "=" ts && !at? "==" ts && !at? "=>" ts then
      let eq ← op "="
      let value ← get
      if peekLiteral value && ((literal.run value).any fun r => r.2.isEmpty) then
        return head ++ [.tokens eq, ← literal]
      else
        require (!(at? "#" value && second (peekGroup .bracket) value))
        let e ← rules (.expr true)
        return head ++ [.tokens eq, e.node]
    else return head

/-- One attribute in front of a construct. -/
def outerAttribute (rules : Rules) : Parser Node := do
  let hash ← op "#"
  let (place, content) ← within .bracket (attributeContent rules)
  return .seq [.tokens hash, .group .bracket place content]

/-- The attributes in front of a construct. -/
def outerAttributes (rules : Rules) : Parser (List Node) :=
  repeatAll do
    if ← ahead (at? "#") then return some (← outerAttribute rules) else return none

/-- The attributes at the start of the inside of a construct. -/
def innerAttributes (rules : Rules) : Parser (List Node) :=
  repeatAll do
    if ← ahead fun ts => at? "#" ts && second (at? "!") ts && third (peekGroup .bracket) ts then
      let hash ← op "#"
      let bang ← op "!"
      let (place, content) ← within .bracket (attributeContent rules)
      return some (.seq [.tokens hash, .tokens bang, .group .bracket place content])
    else return none

end SchemaLint.Code
