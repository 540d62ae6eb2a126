import SchemaLint.FilePath

/-!
# File trees

The files that a program can see, as a value: a tree of directories.  Paths are resolved entry by
entry from the root; what is not a directory has nothing below it.

* `FileNode`: a file or a directory.
* `FileNode.resolve`: the entries on the way to what a path names.
* `FileNode.find?`, `FileNode.readText`: what a path names, and the text of a file.
* `FileNode.graft`, `FileNode.put`, `FileNode.putDirectory`: a tree with one more part, file or
  directory.
-/

namespace SchemaLint

/-- A file or a directory. -/
inductive FileNode
  /-- A file: its content, if that is text. -/
  | file (content : Option String)
  /-- A directory: its entries by name. -/
  | directory (entries : List (String × FileNode))
deriving Inhabited

/-- Why the text of a file cannot be had. -/
inductive ReadFault
  /-- There is no such file. -/
  | notFound
  /-- Something on the way is not a directory. -/
  | notADirectory
  /-- The path names a directory. -/
  | isADirectory
  /-- The file is not text. -/
  | notText
deriving DecidableEq, Repr

/-- The wording of a fault. -/
def ReadFault.message : ReadFault → String
  | .notFound => "No such file or directory (os error 2)"
  | .notADirectory => "Not a directory (os error 20)"
  | .isADirectory => "Is a directory (os error 21)"
  | .notText => "stream did not contain valid UTF-8"

namespace FileNode

/-- Whether the node is a file. -/
def isFile : FileNode → Bool
  | .file _ => true
  | .directory _ => false

/-- Whether the node is a directory. -/
def isDirectory (n : FileNode) : Bool :=
  !n.isFile

/-- The entry of a given name. -/
def entry (n : FileNode) (name : String) : Option FileNode :=
  match n with
  | .file _ => none
  | .directory entries => entries.lookup name

/-- The nodes on the way to what a path names, the last first, and their names. -/
structure Trail where
  /-- The node. -/
  node : FileNode
  /-- The names and nodes above it, the nearest first. -/
  above : List (String × FileNode)

/-- One step along a path. -/
def Trail.step (t : Trail) (piece : String) : Except ReadFault Trail :=
  match t.node with
  | .file _ => .error .notADirectory
  | .directory entries =>
    if piece == "" || piece == "." then .ok t
    else if piece == ".." then
      match t.above with
      | [] => .ok t
      | (_, parent) :: above => .ok ⟨parent, above⟩
    else
      match entries.lookup piece with
      | some node => .ok ⟨node, (piece, t.node) :: t.above⟩
      | none => .error .notFound

/-- The way to what an absolute path names, from the root of a tree. -/
def resolve (root : FileNode) (path : FilePath) : Except ReadFault Trail :=
  ((Text.splitAtChar '/' path.text.toList).map String.ofList).foldlM Trail.step ⟨root, []⟩

/-- What an absolute path names. -/
def find? (root : FileNode) (path : FilePath) : Option FileNode :=
  (root.resolve path).toOption.map Trail.node

/-- Whether an absolute path names something. -/
def contains (root : FileNode) (path : FilePath) : Bool :=
  (root.find? path).isSome

/-- Whether an absolute path names a file. -/
def containsFile (root : FileNode) (path : FilePath) : Bool :=
  (root.find? path).any isFile

/-- The text of the file that an absolute path names. -/
def readText (root : FileNode) (path : FilePath) : Except ReadFault String := do
  match (← root.resolve path).node with
  | .file (some text) => .ok text
  | .file none => .error .notText
  | .directory _ => .error .isADirectory

/-- The names of the directories to what a trail leads to, from the root. -/
def Trail.names (t : Trail) : List String :=
  (t.above.map Prod.fst).reverse

/-- The absolute path without detours to what a trail leads to. -/
def Trail.canonical (t : Trail) : FilePath :=
  ⟨"/" ++ "/".intercalate t.names⟩

/-- Entries in which one has another node, or one more. -/
def putEntry (name : String) (node : FileNode) :
    List (String × FileNode) → List (String × FileNode)
  | [] => [(name, node)]
  | (n, old) :: rest => if n == name then (n, node) :: rest else (n, old) :: putEntry name node rest

/-- A tree that has a given node at a path, below existing or new directories. -/
def graft (node : FileNode) : List String → FileNode → FileNode
  | [], _ => node
  | name :: path, tree =>
    let entries := match tree with
      | .file _ => []
      | .directory entries => entries
    let below := (entries.lookup name).getD (.directory [])
    .directory (putEntry name (graft node path below) entries)

/-- A tree in which a file below existing or new directories has the given content. -/
def put (content : Option String) (path : List String) (tree : FileNode) : FileNode :=
  graft (.file content) path tree

/-- A tree with a directory at a path, made if it is not there. -/
def putDirectory : List String → FileNode → FileNode
  | [], node => if node.isDirectory then node else .directory []
  | name :: path, node =>
    let entries := match node with
      | .file _ => []
      | .directory entries => entries
    let below := (entries.lookup name).getD (.directory [])
    .directory (putEntry name (putDirectory path below) entries)

end FileNode

end SchemaLint
