import SchemaLint.Text.Split

/-!
# File paths

A file path is kept as it was written and is compared by its components: repeated slashes, a
trailing slash and inner `.` components do not count, a leading `./` does.

* `FilePath.components`: the components of a path.
* `FilePath.compare`: the order of paths, component by component.
* `FilePath.relativeTo`: a path below a directory, seen from that directory.
* `FilePath.parent?`, `FilePath.ancestors`: the directories that a path is written below.
-/

namespace SchemaLint

/-- A component of a file path. -/
inductive PathComponent
  /-- The root of an absolute path. -/
  | root
  /-- A leading `.`. -/
  | current
  /-- A step to the parent directory. -/
  | parent
  /-- A named entry. -/
  | entry (name : String)
deriving DecidableEq, Repr

/-- The order of components: root, current, parent, then names by their characters. -/
def PathComponent.compare : PathComponent → PathComponent → Ordering
  | .root, .root => .eq
  | .root, _ => .lt
  | _, .root => .gt
  | .current, .current => .eq
  | .current, _ => .lt
  | _, .current => .gt
  | .parent, .parent => .eq
  | .parent, _ => .lt
  | _, .parent => .gt
  | .entry a, .entry b => Ord.compare a b

/-- A file path as written. -/
structure FilePath where
  /-- The text of the path. -/
  text : String
deriving DecidableEq, Repr, Inhabited

namespace FilePath

/-- The component a piece between slashes stands for, if it counts. -/
def componentOf (piece : List Char) : Option PathComponent :=
  match piece with
  | [] => none
  | ['.'] => none
  | ['.', '.'] => some .parent
  | name => some (.entry (String.ofList name))

/-- The components of the text after the start of a path. -/
def bodyComponents (cs : List Char) : List PathComponent :=
  (Text.splitAtChar '/' cs).filterMap componentOf

/-- The components of a path. -/
def components (p : FilePath) : List PathComponent :=
  match p.text.toList with
  | '/' :: cs => .root :: bodyComponents cs
  | ['.'] => [.current]
  | '.' :: '/' :: cs => .current :: bodyComponents cs
  | cs => bodyComponents cs

/-- The order of component lists. -/
def compareComponents : List PathComponent → List PathComponent → Ordering
  | [], [] => .eq
  | [], _ :: _ => .lt
  | _ :: _, [] => .gt
  | a :: as, b :: bs => (a.compare b).then (compareComponents as bs)

/-- The order of paths. -/
def compare (p q : FilePath) : Ordering :=
  compareComponents p.components q.components

/-- Whether two paths have the same components. -/
def same (p q : FilePath) : Bool :=
  p.components == q.components

/-- Whether a path starts at the root. -/
def isAbsolute (p : FilePath) : Bool :=
  p.text.toList.head? == some '/'

/-- A path taken below a directory; an absolute path stays what it is. -/
def join (dir p : FilePath) : FilePath :=
  if p.isAbsolute then p
  else if dir.text.isEmpty || dir.text.toList.getLast? == some '/' then ⟨dir.text ++ p.text⟩
  else ⟨dir.text ++ "/" ++ p.text⟩

/-- Whether a piece between slashes counts for nothing. -/
def isIdlePiece (piece : List Char) : Bool :=
  (componentOf piece).isNone

/-- A list of pieces without the idle ones at its end. -/
def dropIdleEnd (pieces : List (List Char)) : List (List Char) :=
  (pieces.reverse.dropWhile isIdlePiece).reverse

/-- Pieces joined by slashes. -/
def joinPieces (pieces : List (List Char)) : List Char :=
  ['/'].intercalate pieces

/-- The pieces that remain after as many components as given. -/
def dropComponents : Nat → List (List Char) → List (List Char)
  | 0, pieces => pieces
  | _, [] => []
  | n + 1, piece :: pieces =>
    if isIdlePiece piece then dropComponents (n + 1) pieces else dropComponents n pieces

/-- The text of a path after its first components, without idle pieces at either end. -/
def textAfter (p : FilePath) (count : Nat) : String :=
  let trimmed (pieces : List (List Char)) : String :=
    String.ofList (joinPieces (dropIdleEnd pieces))
  match p.text.toList, count with
  | '/' :: cs, 0 => "/" ++ trimmed (Text.splitAtChar '/' cs)
  | '/' :: cs, n + 1 =>
    trimmed ((dropComponents n (Text.splitAtChar '/' cs)).dropWhile isIdlePiece)
  | ['.'], 0 => "."
  | ['.'], _ + 1 => ""
  | '.' :: '/' :: cs, 0 => "." ++ trimmed ([] :: Text.splitAtChar '/' cs)
  | '.' :: '/' :: cs, n + 1 =>
    trimmed ((dropComponents n (Text.splitAtChar '/' cs)).dropWhile isIdlePiece)
  | cs, 0 => trimmed (Text.splitAtChar '/' cs)
  | cs, n + 1 => trimmed ((dropComponents (n + 1) (Text.splitAtChar '/' cs)).dropWhile isIdlePiece)

/-- A path seen from a directory above it; a path that is not below the directory stays what it
is. -/
def relativeTo (p dir : FilePath) : FilePath :=
  if dir.components.isPrefixOf p.components then ⟨p.textAfter dir.components.length⟩ else p

/-- Text after the start of a path without its last component, and without idle pieces at the
end. -/
def bodyAbove (cs : List Char) : List Char :=
  joinPieces (dropIdleEnd (dropIdleEnd (Text.splitAtChar '/' cs)).dropLast)

/-- The path without its last component; the root and the empty path have none to drop. -/
def parent? (p : FilePath) : Option FilePath :=
  match p.text.toList with
  | '/' :: cs =>
    if (bodyComponents cs).isEmpty then none else some ⟨String.ofList ('/' :: bodyAbove cs)⟩
  | ['.'] => some ⟨""⟩
  | '.' :: '/' :: cs =>
    if (bodyComponents cs).isEmpty then some ⟨""⟩
    else some ⟨String.ofList ('.' :: bodyAbove ('/' :: cs))⟩
  | cs => if (bodyComponents cs).isEmpty then none else some ⟨String.ofList (bodyAbove cs)⟩

/-- A path and its parents, at most so many. -/
def ancestorsFrom (p : FilePath) : Nat → List FilePath
  | 0 => [p]
  | n + 1 =>
    p :: match p.parent? with
      | some q => q.ancestorsFrom n
      | none => []

/-- A path, its parent, the parent of that and so on. -/
def ancestors (p : FilePath) : List FilePath :=
  p.ancestorsFrom p.components.length

/-- The last named entry of a path. -/
def fileName? (p : FilePath) : Option String :=
  match p.components.getLast? with
  | some (.entry name) => some name
  | _ => none

/-- The part of a file name after its last dot, unless the name begins with that dot. -/
def extensionOf? (name : String) : Option String :=
  match Text.cutAt? ['.'] name.toList.reverse with
  | some (ext, stem) =>
    if stem.isEmpty || name == ".." then none else some (String.ofList ext.reverse)
  | none => none

/-- The part of the last entry's name after its last dot. -/
def fileExtension? (p : FilePath) : Option String :=
  p.fileName?.bind extensionOf?

end FilePath

end SchemaLint
