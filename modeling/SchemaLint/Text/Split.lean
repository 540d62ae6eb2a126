import SchemaLint.Text.Class

/-!
# Cutting and joining text

Operations on character lists and strings that several readers share: removing a given
beginning, cutting at a separator, and cutting into words.

* `dropLeading?`: the rest of a text after a given beginning.
* `splitOn`: the pieces between occurrences of a separator, at least one.
* `words`: the maximal runs without blanks.
-/

namespace SchemaLint.Text

/-- The rest of a list after the given beginning, if it begins so. -/
def dropLeading? : List Char → List Char → Option (List Char)
  | [], cs => some cs
  | _ :: _, [] => none
  | p :: ps, c :: cs => if p = c then dropLeading? ps cs else none

/-- What is dropped from the front and what is left make up the text. -/
theorem dropLeading?_eq_some_iff {lead cs rest : List Char} :
    dropLeading? lead cs = some rest ↔ cs = lead ++ rest := by
  induction lead generalizing cs with
  | nil => simp [dropLeading?]
  | cons p lead ih =>
      cases cs with
      | nil => simp [dropLeading?]
      | cons c cs =>
          by_cases hpc : p = c
          · simp [dropLeading?, hpc, ih]
          · simp [dropLeading?, hpc, Ne.symm hpc]

/-- The text up to the first occurrence of a separator and the text after it. -/
def cutAt? (separator : List Char) : List Char → Option (List Char × List Char)
  | [] => if separator.isEmpty then some ([], []) else none
  | c :: cs =>
    match dropLeading? separator (c :: cs) with
    | some rest => some ([], rest)
    | none => (cutAt? separator cs).map fun (before, rest) => (c :: before, rest)

/-- The pieces of a list between occurrences of one character. -/
def splitAtChar (separator : Char) : List Char → List (List Char)
  | [] => [[]]
  | c :: cs =>
    if c = separator then [] :: splitAtChar separator cs
    else
      match splitAtChar separator cs with
      | [] => [[c]]
      | piece :: pieces => (c :: piece) :: pieces

/-- The pieces of a list between occurrences of a two-character mark, found from the left. -/
def splitAtPair (first second : Char) : List Char → List (List Char)
  | [] => [[]]
  | [c] => [[c]]
  | c :: d :: cs =>
    if c = first ∧ d = second then [] :: splitAtPair first second cs
    else
      match splitAtPair first second (d :: cs) with
      | [] => [[c]]
      | piece :: pieces => (c :: piece) :: pieces

/-- A list without its leading blanks. -/
def trimStart (cs : List Char) : List Char :=
  cs.dropWhile isBlank

/-- A list without its trailing blanks. -/
def trimEnd (cs : List Char) : List Char :=
  (cs.reverse.dropWhile isBlank).reverse

/-- A string without leading and trailing blanks. -/
def trim (s : String) : String :=
  String.ofList (trimEnd (trimStart s.toList))

/-- The words of a list given the word read so far, reversed. -/
def wordsFrom : List Char → List Char → List (List Char)
  | current, [] => if current.isEmpty then [] else [current.reverse]
  | current, c :: cs =>
    if isBlank c then
      if current.isEmpty then wordsFrom [] cs else current.reverse :: wordsFrom [] cs
    else wordsFrom (c :: current) cs

/-- The maximal runs of characters that are not blank, in order. -/
def words (cs : List Char) : List String :=
  (wordsFrom [] cs).map String.ofList

/-- The segments of a path written with double colons. -/
def colonSegments (s : String) : List String :=
  (splitAtPair ':' ':' s.toList).map String.ofList

/-- Strings joined by a separator. -/
def join (separator : String) (parts : List String) : String :=
  separator.intercalate parts

end SchemaLint.Text
