import SchemaLint.Toml.Scalar

/-!
# TOML documents

* `Toml.value`: a value.
* `Toml.statement`: a statement of a document.
* `Toml.parse?`: the members of a document, if it is one.
-/

namespace SchemaLint.Toml

/-! ## Values -/

/-- A value that holds no other. -/
def scalar : Reader Value := do
  match ← peek? with
  | some '"' => return .text (← anyString)
  | some '\'' => return .text (← anyString)
  | some 't' =>
    piece "true".toList
    return .bool true
  | some 'f' =>
    piece "false".toList
    return .bool false
  | _ =>
    match ← optional moment with
    | some v => return v
    | none =>
      match ← optional floatNumber with
      | some v => return v
      | none => wholeNumber

/-- A list of values, given how to read one. -/
def arrayOf (element : Reader Value) : Reader Value := do
  piece ['[']
  let spaced : Reader Value := do
    layout
    let v ← element
    layout
    return v
  let elements ← optional (separated (piece [',']) spaced)
  if elements.isSome then
    let _ ← optional (piece [','])
  layout
  piece [']']
  return .array (elements.getD [])

/-- A member: its key and its value, given how to read one. -/
def memberOf (element : Reader Value) : Reader (List String × String × Value) := do
  let (path, key) ← keyPath
  piece ['=']
  blanks
  let v ← element
  return (path, key, v)

/-- A table in curly brackets, given how to read a value. -/
def inlineTableOf (element : Reader Value) : Reader Value := do
  piece ['\x7b']
  let spaced := do
    let m ← memberOf element
    blanks
    return m
  let members ← optional (separated (piece [',']) spaced)
  blanks
  piece ['\x7d']
  match assembleInline? (members.getD []) with
  | some ms => return .table .inline ms
  | none => failure

/-- A value that holds others at most so many levels deep. -/
def value : Nat → Reader Value
  | 0 => scalar
  | levels + 1 => do
    match ← peek? with
    | some '[' => arrayOf (value levels)
    | some '\x7b' => inlineTableOf (value levels)
    | _ => scalar

/-! ## Statements -/

/-- A header, in single or double brackets. -/
def headerStatement : Reader Statement := do
  piece ['[']
  let double ← optional (piece ['['])
  let (path, key) ← keyPath
  piece [']']
  if double.isSome then
    piece [']']
    restOfLine
    return .nextOf (path ++ [key])
  else
    restOfLine
    return .header (path ++ [key])

/-- A member with the rest of its line. -/
def memberStatement : Reader Statement := do
  let (path, key, v) ← memberOf (value (nestingLimit - 1))
  restOfLine
  return .member path key v

/-- A line of a document, with a statement or without one. -/
def statement : Reader (Option Statement) := do
  blanks
  match ← peek? with
  | none => failure
  | some '#' =>
    restOfLine
    return none
  | some '\n' =>
    lineEnd
    return none
  | some '\r' =>
    lineEnd
    return none
  | some '[' => return some (← headerStatement)
  | some _ => return some (← memberStatement)

/-- A text without the mark of its encoding. -/
def dropByteOrderMark : List Char → List Char
  | '\ufeff' :: cs => cs
  | cs => cs

/-- The members of a document, if the text is one. -/
def parse? (source : String) : Option Members := do
  let (lines, rest) ← (many statement).run (dropByteOrderMark source.toList)
  if rest.all isBlank then assemble? (lines.filterMap id) else none

end SchemaLint.Toml
