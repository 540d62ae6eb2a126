import SchemaLint.Text.Split

/-!
# TOML values

* `Toml.Value`: a value of a TOML document.
* `Toml.Statement`: a line of a document.
* `Toml.assemble?`: the table that statements make, unless they define something twice.
-/

namespace SchemaLint.Toml

/-- How a table came about. -/
inductive TableForm
  /-- By a header, or as the document itself. -/
  | header
  /-- As a part of the path of a header. -/
  | implied
  /-- As a part of a dotted key. -/
  | dotted
  /-- As a value in curly brackets. -/
  | inline
deriving DecidableEq, Repr

/-- A value of a document. -/
inductive Value
  /-- A string. -/
  | text (s : String)
  /-- A whole number. -/
  | integer (n : Int)
  /-- A number with a fraction or an exponent, or a special one, as written. -/
  | float (written : String)
  /-- A truth value. -/
  | bool (b : Bool)
  /-- A date, a time or both. -/
  | moment
  /-- A list in square brackets. -/
  | array (elements : List Value)
  /-- A table. -/
  | table (form : TableForm) (members : List (String × Value))
  /-- The tables of repeated headers in double brackets. -/
  | series (tables : List (List (String × Value)))
deriving Inhabited

/-- Named values. -/
abbrev Members := List (String × Value)

/-- A line of a document. -/
inductive Statement
  /-- A header: the table whose members follow. -/
  | header (path : List String)
  /-- A header in double brackets: one more table of a series. -/
  | nextOf (path : List String)
  /-- A member: the path of its key, the key and the value. -/
  | member (path : List String) (key : String) (value : Value)

/-! ## Members of tables -/

/-- Members in which one has another value. -/
def replace (key : String) (v : Value) : Members → Members
  | [] => []
  | (k, w) :: rest => if k == key then (k, v) :: rest else (k, w) :: replace key v rest

/-- The members of a table after a change at a path below it.  Missing tables on the way are
made; a value, and for a dotted key also a table that has a header, stands in the way. -/
def editAt? (dotted : Bool) (change : TableForm → Members → Option Members) :
    List String → TableForm → Members → Option Members
  | [], form, ms => change form ms
  | key :: path, _, ms =>
    match ms.lookup key with
    | none =>
      let form := if dotted then TableForm.dotted else .implied
      (editAt? dotted change path form []).map fun inner => ms ++ [(key, .table form inner)]
    | some (.table form inner) =>
      if form = .inline ∨ (dotted ∧ form = .header) then none
      else
        (editAt? dotted change path form inner).map fun inner => replace key (.table form inner) ms
    | some (.series tables) =>
      match tables.getLast? with
      | none => none
      | some last =>
        (editAt? dotted change path .header last).map fun last =>
          replace key (.series (tables.dropLast ++ [last])) ms
    | some _ => none

/-- The members with one more, unless the key is taken.  A table made by a dotted key takes members
only by dotted keys, and such keys go only to such tables. -/
def addMember? (viaPath : Bool) (key : String) (v : Value) (form : TableForm) (ms : Members) :
    Option Members :=
  if (form == .dotted) != viaPath then none
  else if (ms.lookup key).isSome then none
  else some (ms ++ [(key, v)])

/-- The members after a header for one of them. -/
def openTable? (key : String) (_form : TableForm) (ms : Members) : Option Members :=
  match ms.lookup key with
  | none => some (ms ++ [(key, .table .header [])])
  | some (.table .implied inner) => some (replace key (.table .header inner) ms)
  | some _ => none

/-- The members after a header in double brackets for one of them. -/
def openNext? (key : String) (_form : TableForm) (ms : Members) : Option Members :=
  match ms.lookup key with
  | none => some (ms ++ [(key, .series [[]])])
  | some (.series tables) => some (replace key (.series (tables ++ [[]])) ms)
  | some _ => none

/-! ## Documents -/

/-- A document so far: its members and the path of the last header. -/
structure Draft where
  /-- The members of the document. -/
  root : Members
  /-- The path of the table whose members follow. -/
  current : List String

/-- A change at the parent of a path, given the last key of the path. -/
def atParent? (root : Members) (path : List String)
    (change : String → TableForm → Members → Option Members) : Option Members :=
  match path.getLast? with
  | none => none
  | some key => editAt? false (change key) path.dropLast .header root

/-- A document after one more statement. -/
def Draft.add? (d : Draft) : Statement → Option Draft
  | .header path => (atParent? d.root path openTable?).map fun root => ⟨root, path⟩
  | .nextOf path => (atParent? d.root path openNext?).map fun root => ⟨root, path⟩
  | .member path key v =>
    let change (form : TableForm) (ms : Members) : Option Members :=
      editAt? true (addMember? (!path.isEmpty) key v) path form ms
    (editAt? false change d.current .header d.root).map fun root => ⟨root, d.current⟩

/-- The members of the document that statements make. -/
def assemble? (statements : List Statement) : Option Members :=
  (statements.foldlM Draft.add? ⟨[], []⟩).map Draft.root

/-- The members of a table in curly brackets. -/
def assembleInline? (members : List (List String × String × Value)) : Option Members :=
  members.foldlM
    (fun ms (path, key, v) => editAt? true (addMember? (!path.isEmpty) key v) path .inline ms) []

end SchemaLint.Toml
