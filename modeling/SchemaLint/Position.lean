/-!
# Positions in a source text

A position names a character by line and column, both counted from one.  Only a line feed ends a
line, and columns count characters, not bytes.  Line zero stands for a place that is not known.

* `Position.advance`: the position after one character.
* `Position.advanceAll`: the position after a run of characters.
-/

namespace SchemaLint

/-- A place in a source text. -/
structure Position where
  /-- Line, counted from one; zero when the place is not known. -/
  line : Nat
  /-- Column in characters, counted from one. -/
  column : Nat
deriving DecidableEq, Repr, Inhabited

namespace Position

/-- The place of something that has none. -/
def unknown : Position := ⟨0, 0⟩

/-- The first character of a text. -/
def start : Position := ⟨1, 1⟩

/-- Whether the position names a place. -/
def isKnown (p : Position) : Bool :=
  0 < p.line

/-- The position after one character. -/
def advance (p : Position) (c : Char) : Position :=
  if c = '\n' then ⟨p.line + 1, 1⟩ else ⟨p.line, p.column + 1⟩

/-- The position after a run of characters. -/
def advanceAll (p : Position) (cs : List Char) : Position :=
  cs.foldl advance p

/-- Passing over nothing leads nowhere. -/
@[simp] theorem advanceAll_nil (p : Position) : p.advanceAll [] = p := rfl

/-- Characters are passed one by one. -/
@[simp] theorem advanceAll_cons (p : Position) (c : Char) (cs : List Char) :
    p.advanceAll (c :: cs) = (p.advance c).advanceAll cs := rfl

/-- Runs of characters are passed one after the other. -/
theorem advanceAll_append (p : Position) (cs ds : List Char) :
    p.advanceAll (cs ++ ds) = (p.advanceAll cs).advanceAll ds := by
  simp [advanceAll, List.foldl_append]

end Position

end SchemaLint
