import SchemaLint.Code.Node

/-!
# Import tables

The paths that names of a file may stand for.  The only type information that a file gives by
itself is its import declarations: a path written in the file is expanded into the full paths that
it may denote.

* `ImportTable.addTree`: the effect of one import declaration.
* `ImportTable.ofNodes`: the table of a file, nested modules and function bodies included.
* `ImportTable.resolve`: the full paths a written path may denote.
-/

namespace SchemaLint

open Code

/-- What the names of a file stand for. -/
structure ImportTable where
  /-- Imported names and their full paths; the first entry of a name counts. -/
  aliases : List (String × List String)
  /-- The paths whose content is imported as a whole, in order. -/
  globs : List (List String)
deriving DecidableEq, Repr, Inhabited

namespace ImportTable

/-- A table without imports. -/
def empty : ImportTable := ⟨[], []⟩

/-- The full path an imported name stands for. -/
def alias? (t : ImportTable) (name : String) : Option (List String) :=
  t.aliases.lookup name

/-- A table in which a name stands for a path, whatever it stood for before. -/
def insertAlias (t : ImportTable) (name : String) (path : List String) : ImportTable :=
  { t with aliases := (name, path) :: t.aliases }

/-- A table with one more path imported as a whole. -/
def insertGlob (t : ImportTable) (path : List String) : ImportTable :=
  { t with globs := t.globs ++ [path] }

mutual

/-- The effect of an import tree below a path. -/
def addTree (parent : List String) (t : ImportTable) : UseTree → ImportTable
  | .path segment tree => addTree (parent ++ [segment.plain]) t tree
  | .name ident =>
    if ident.plain == "self" then
      match parent.getLast? with
      | some last => t.insertAlias last parent
      | none => t
    else t.insertAlias ident.plain (parent ++ [ident.plain])
  | .rename ident other =>
    let full := if ident.plain == "self" then parent else parent ++ [ident.plain]
    if other.name == "_" then t else t.insertAlias other.plain full
  | .glob => t.insertGlob parent
  | .group trees => addTrees parent t trees

/-- The effect of several import trees below a path, from left to right. -/
def addTrees (parent : List String) (t : ImportTable) : List UseTree → ImportTable
  | [] => t
  | tree :: rest => addTrees parent (addTree parent t tree) rest

end

mutual

/-- The effect of all import declarations in a piece of code, macro calls left out. -/
def addNode (t : ImportTable) : Node → ImportTable
  | .tokens _ => t
  | .group _ _ inner => addNodes t inner
  | .seq parts => addNodes t parts
  | .conditioned parts conditions => addNodes (addNodes t conditions) parts
  | .bodied front attributes body => addNode (addNodes (addNodes t attributes) front) body
  | .arranged _ parts => addNodes t parts
  | .attributed attributes inner => addNode (addNodes t attributes) inner
  | .literal _ => t
  | .path _ parts => addNodes t parts
  | .paren _ inner => addNode t inner
  | .reference mark inner => addNode (addNodes t mark) inner
  | .deref _ inner => addNode t inner
  | .operation left _ right => addNode (addNode t left) right
  | .call callee _ args _ => addNodes (addNode t callee) args
  | .methodCall attributes receiver _ _ generics _ args _ =>
    addNodes (addNodes (addNode (addNodes t attributes) receiver) generics) args
  | .record attributes _ head _ fields _ _ rest =>
    addNodes (addNodes (addNodes (addNodes t attributes) head) fields) rest
  | .field attributes _ _ value => addNode (addNodes t attributes) value
  | .scope _ parts => addNodes t parts
  | .block _ statements => addNodes t statements
  | .binding attributes pattern init =>
    addNodes (addNode (addNodes t attributes) pattern) init
  | .binder mark _ sub => addNodes (addNodes t mark) sub
  | .typed pattern type => addNode (addNode t pattern) type
  | .use tree parts => addNodes (addTree [] t tree) parts
  | .macroCall _ _ => t

/-- The effect of all import declarations in several pieces of code. -/
def addNodes (t : ImportTable) : List Node → ImportTable
  | [] => t
  | n :: rest => addNodes (addNode t n) rest

end

/-- The import table of a file. -/
def ofNodes (items : List Node) : ImportTable :=
  addNodes empty items

/-- A list without the repeats that directly follow their first occurrence. -/
def dropRepeats : List String → List String
  | [] => []
  | [a] => [a]
  | a :: b :: rest => if a == b then dropRepeats (b :: rest) else a :: dropRepeats (b :: rest)

/-- The full paths that segments may denote: an explicit import shadows the imports of a whole,
and a path of several segments may also be meant as written. -/
def resolveSegments (t : ImportTable) : List String → List String
  | [] => []
  | first :: rest =>
    let imported :=
      match t.alias? first with
      | some target => [Text.join "::" (target ++ rest)]
      | none => t.globs.map fun parent => Text.join "::" (parent ++ first :: rest)
    let written := if rest.isEmpty then [] else [Text.join "::" (first :: rest)]
    dropRepeats (imported ++ written)

/-- The full paths that a path may denote; a rooted path denotes itself. -/
def resolve (t : ImportTable) (path : PathName) : List String :=
  if path.rooted then [path.written] else t.resolveSegments path.plainSegments

end ImportTable

end SchemaLint
