import SchemaLint.Code.Token

/-!
# Parsed code

The tree the parser produces.  It distinguishes the forms that an analysis looks at (paths,
calls, record literals, bindings, scopes, imports, macro calls); any other construct is the
sequence of its parts in source order.  A few constructs are read or written out in another order
than they stand in, and say so.  No token is lost: a node can be written out again.

* `Node`: a piece of parsed code.
* `Node.shown`: its tokens, each operator a unit of its own.
* `Node.text`, `Node.place`: its text and where it begins.
* `Node.bare`: a node without its attributes.
* `Node.withAttributes`, `Node.withAttributesLeft`, `Node.headed`: putting parts in front of a node.
-/

namespace SchemaLint.Code

/-- The names of a path, without its generic arguments. -/
structure PathName where
  /-- Whether the path starts with a double colon. -/
  rooted : Bool
  /-- Whether the path is that of a member of a type in angle brackets. -/
  qualified : Bool
  /-- Whether some segment has arguments. -/
  generic : Bool
  /-- The segments in order. -/
  segments : List Ident
deriving DecidableEq, Repr, Inhabited

namespace PathName

/-- The segments without raw marks. -/
def plainSegments (p : PathName) : List String :=
  p.segments.map Ident.plain

/-- The path as text, without raw marks and arguments. -/
def written (p : PathName) : String :=
  Text.join "::" p.plainSegments

/-- The identifier a path consists of, if it is nothing else. -/
def ident? (p : PathName) : Option Ident :=
  match p.segments with
  | [i] => if p.rooted || p.generic then none else some i
  | _ => none

end PathName

/-- The tree of an import declaration. -/
inductive UseTree
  /-- A segment and what is imported below it. -/
  | path (segment : Ident) (tree : UseTree)
  /-- A single name. -/
  | name (ident : Ident)
  /-- A name imported under another one. -/
  | rename (ident : Ident) (newName : Ident)
  /-- Everything. -/
  | glob
  /-- Several trees in braces. -/
  | group (trees : List UseTree)
deriving Inhabited

/-- A piece of parsed code. -/
inductive Node
  /-- Tokens as they stand. -/
  | tokens (ts : List Token)
  /-- Parts between delimiters. -/
  | group (delimiter : Delimiter) (place : Position) (inner : List Node)
  /-- Any other construct: its parts in order. -/
  | seq (parts : List Node)
  /-- Parts of a declaration and the conditions after them, which belong to the generic parameters
  in front of the parts: they are written last and read first. -/
  | conditioned (parts : List Node) (conditions : List Node)
  /-- A body with what stands in front of it and the inner attributes at its start, which belong to
  the whole construct: they are written inside the brackets of the body and read first. -/
  | bodied (front : List Node) (attributes : List Node) (body : Node)
  /-- Parts that are written out in an order of their own, as the given tokens. -/
  | arranged (ts : List Token) (parts : List Node)
  /-- Code with attributes in front. -/
  | attributed (attributes : List Node) (inner : Node)
  /-- A literal. -/
  | literal (ts : List Token)
  /-- A path, as an expression, a type or a pattern. -/
  | path (name : PathName) (parts : List Node)
  /-- An expression or type in round brackets. -/
  | paren (place : Position) (inner : Node)
  /-- A reference to an expression or a type. -/
  | reference (mark : List Node) (inner : Node)
  /-- A dereferenced expression. -/
  | deref (mark : List Token) (inner : Node)
  /-- An assignment, a binary operation or a cast. -/
  | operation (left : Node) (mark : List Token) (right : Node)
  /-- A call, with whether a comma ends its arguments. -/
  | call (callee : Node) (place : Position) (args : List Node) (trailing : Bool)
  /-- A method call. -/
  | methodCall (attributes : List Node) (receiver : Node) (dot : List Token) (method : Ident)
      (generics : List Node) (place : Position) (args : List Node) (trailing : Bool)
  /-- A record literal: its path, the place of its brace, its fields, and what fills the others. -/
  | record (attributes : List Node) (name : PathName) (head : List Node) (place : Position)
      (fields : List Node) (trailing : Bool) (dots : List Token) (rest : List Node)
  /-- A field of a record literal; a shorthand field names its value. -/
  | field (attributes : List Node) (member : Ident) (shorthand : Bool) (value : Node)
  /-- A function or closure: its parameters, and all its parts in order. -/
  | scope (params : List Node) (parts : List Node)
  /-- Statements in curly brackets. -/
  | block (place : Position) (statements : List Node)
  /-- A `let` statement with its initialiser and its alternative. -/
  | binding (attributes : List Node) (pattern : Node) (init : List Node)
  /-- A pattern that binds a name. -/
  | binder (mark : List Node) (name : Ident) (sub : List Node)
  /-- A pattern with a type. -/
  | typed (pattern : Node) (type : Node)
  /-- An import declaration. -/
  | use (tree : UseTree) (parts : List Node)
  /-- A macro call: its tokens, and its arguments if they are expressions. -/
  | macroCall (parts : List Node) (arguments : List Node)
deriving Inhabited

namespace Node

/-- A comma that the printer writes. -/
def comma : Token :=
  .punct ',' false Position.unknown

mutual

/-- The tokens of a node, each operator joint within itself only. -/
def shown : Node → List Token
  | .tokens ts => ts
  | .group d place inner => [.group d place (shownAll inner)]
  | .seq parts => shownAll parts
  | .conditioned parts conditions => shownAll parts ++ shownAll conditions
  | .bodied front attributes body =>
    shownAll front ++ Token.insideFront (shownAll attributes) (shown body)
  | .arranged ts _ => ts
  | .attributed attributes inner => shownAll attributes ++ shown inner
  | .literal ts => ts
  | .path _ parts => shownAll parts
  | .paren place inner => [.group .paren place (shown inner)]
  | .reference mark inner => shownAll mark ++ shown inner
  | .deref mark inner => mark ++ shown inner
  | .operation left mark right => shown left ++ mark ++ shown right
  | .call callee place args trailing =>
    shown callee ++ [.group .paren place (shownList args ++ if trailing then [comma] else [])]
  | .methodCall attributes receiver dot method generics place args trailing =>
    shownAll attributes ++ shown receiver ++ dot ++ [method.token] ++ shownAll generics ++
      [.group .paren place (shownList args ++ if trailing then [comma] else [])]
  | .record attributes _ head place fields trailing dots rest =>
    shownAll attributes ++ shownAll head ++
      [.group .brace place
        (shownList fields ++ (if trailing then [comma] else []) ++ dots ++ shownAll rest)]
  | .field attributes member shorthand value =>
    shownAll attributes ++ [member.token] ++
      if shorthand then [] else .punct ':' false Position.unknown :: shown value
  | .scope _ parts => shownAll parts
  | .block place statements => [.group .brace place (shownAll statements)]
  | .binding attributes pattern init =>
    shownAll attributes ++ [.ident "let" Position.unknown] ++ shown pattern ++ shownAll init ++
      [.punct ';' false Position.unknown]
  | .binder mark name sub => shownAll mark ++ [name.token] ++ shownAll sub
  | .typed pattern type => shown pattern ++ [.punct ':' false Position.unknown] ++ shown type
  | .use _ parts => shownAll parts
  | .macroCall parts _ => shownAll parts

/-- The tokens of several nodes. -/
def shownAll : List Node → List Token
  | [] => []
  | n :: rest => shown n ++ shownAll rest

/-- The tokens of several nodes with commas between them. -/
def shownList : List Node → List Token
  | [] => []
  | [n] => shown n
  | n :: rest => shown n ++ comma :: shownList rest

end

/-- The text of a node: its tokens with one blank between them. -/
def text (n : Node) : String :=
  Token.renderAll n.shown

/-- Where a node begins. -/
def place (n : Node) : Position :=
  match n.shown with
  | t :: _ => t.place
  | [] => Position.unknown

/-- Whether the last token of a node is a group in curly brackets. -/
def endsWithBrace (n : Node) : Bool :=
  match n.shown.getLast? with
  | some (.group .brace _ _) => true
  | _ => false

/-- A node without the attributes in front of it. -/
def bare : Node → Node
  | .attributed _ inner => bare inner
  | n => n

/-- A node with attributes in front of its own. -/
def withAttributes (attributes : List Node) (n : Node) : Node :=
  if attributes.isEmpty then n
  else
    match n with
    | .methodCall own receiver dot method generics place args trailing =>
      .methodCall (attributes ++ own) receiver dot method generics place args trailing
    | .record own name head place fields trailing dots rest =>
      .record (attributes ++ own) name head place fields trailing dots rest
    | .scope params parts => .scope params (attributes ++ parts)
    | .binding own pattern init => .binding (attributes ++ own) pattern init
    | n => .attributed attributes n

/-- A node with attributes in front of the leftmost operand of its operations. -/
def withAttributesLeft (attributes : List Node) : Node → Node
  | .operation left mark right => .operation (withAttributesLeft attributes left) mark right
  | n => withAttributes attributes n

/-- A construct that ends in a body, as its parts: what stands in front of the body is read after
the inner attributes of the body. -/
def headed (front : List Node) : Node → List Node
  | .bodied own attributes body => [.bodied (front ++ own) attributes body]
  | body => front ++ [body]

end Node

end SchemaLint.Code
