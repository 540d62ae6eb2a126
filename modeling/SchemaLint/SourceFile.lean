import SchemaLint.Code.Grammar
import SchemaLint.FilePath

/-!
# Source files

* `SourceFile`: a file to be analysed.
* `SourceFile.offsetFor`: the byte offset of a line and column.
-/

namespace SchemaLint

/-- A file to be analysed. -/
structure SourceFile where
  /-- Number of the file within a run. -/
  id : Nat
  /-- Where the file is. -/
  path : FilePath
  /-- The path that findings show. -/
  relativePath : FilePath
  /-- What the file holds. -/
  content : String
deriving DecidableEq, Repr

namespace SourceFile

/-- A file below a root directory. -/
def below (root : FilePath) (id : Nat) (path : FilePath) (content : String) : SourceFile :=
  ⟨id, path, path.relativeTo root, content⟩

/-- A file whose path is shown as it is. -/
def ofText (id : Nat) (path : FilePath) (content : String) : SourceFile :=
  ⟨id, path, path, content⟩

/-- The code of the file, if it can be parsed. -/
def parse? (f : SourceFile) : Option Code.CodeFile :=
  Code.parseFile? f.content

/-- Number of bytes of a run of characters. -/
def byteLength (cs : List Char) : Nat :=
  cs.foldr (fun c n => c.utf8Size + n) 0

/-- The lines of a text, each with its line feed. -/
def linesOf : List Char → List (List Char)
  | [] => []
  | c :: cs =>
    if c = '\n' then [c] :: linesOf cs
    else
      match linesOf cs with
      | [] => [[c]]
      | line :: rest => (c :: line) :: rest

/-- The byte offset of a column in the given line among lines, counted from the first byte. -/
def offsetInLines (column : Nat) : Nat → List (List Char) → Nat
  | _, [] => 0
  | 0, line :: _ => byteLength (line.take (column - 1))
  | n + 1, line :: rest => byteLength line + offsetInLines column n rest

/-- The byte offset of a line and column; a line past the end gives the length of the text. -/
def offsetFor (f : SourceFile) (line column : Nat) : Nat :=
  match line with
  | 0 => 0
  | n + 1 => offsetInLines column n (linesOf f.content.toList)

end SourceFile

end SchemaLint
