import SchemaLint.Text.Split

/-!
# JSON values

Values of the JSON data format with whole numbers.  The members of an object are kept in the order
in which they are written.

* `Json`: a value.
* `Json.pretty`: its text, one element a line, indented by two blanks a level.
* `Json.record?`, `Json.array?`, `Json.text?`, `Json.natural?`: reading.
* `Json.isHeld`: whether a reader can hold a value that it does not know how to read yet.
-/

namespace SchemaLint

/-- A JSON value. -/
inductive Json
  /-- The null value. -/
  | null
  /-- A truth value. -/
  | bool (value : Bool)
  /-- A whole number. -/
  | number (value : Int)
  /-- A string. -/
  | text (value : String)
  /-- A list of values. -/
  | array (elements : List Json)
  /-- Named values in written order. -/
  | object (members : List (String × Json))
deriving Inhabited

namespace Json

/-! ## Writing -/

/-- A hexadecimal digit. -/
def hexDigit (n : Nat) : Char :=
  (Nat.digitChar n)

/-- A character as it stands in a quoted string. -/
def escapeChar (c : Char) : List Char :=
  if c = '"' then ['\\', '"']
  else if c = '\\' then ['\\', '\\']
  else if c = '\n' then ['\\', 'n']
  else if c = '\r' then ['\\', 'r']
  else if c = '\t' then ['\\', 't']
  else if c.toNat = 8 then ['\\', 'b']
  else if c.toNat = 12 then ['\\', 'f']
  else if c.toNat < 32 then ['\\', 'u', '0', '0', hexDigit (c.toNat / 16), hexDigit (c.toNat % 16)]
  else [c]

/-- A string in quotes. -/
def quote (s : String) : String :=
  "\"" ++ String.ofList (s.toList.flatMap escapeChar) ++ "\""

/-- The start of a line at a level of nesting. -/
def lineStart (level : Nat) : String :=
  "\n" ++ String.ofList (List.replicate (2 * level) ' ')

mutual

/-- The text of a value that stands at a level of nesting. -/
def prettyAt (level : Nat) : Json → String
  | .null => "null"
  | .bool true => "true"
  | .bool false => "false"
  | .number n => toString n
  | .text s => quote s
  | .array [] => "[]"
  | .array (v :: vs) =>
    "[" ++ lineStart (level + 1) ++ prettyAt (level + 1) v ++ prettyElements (level + 1) vs ++
      lineStart level ++ "]"
  | .object [] => "\x7b\x7d"
  | .object ((name, v) :: ms) =>
    "\x7b" ++ lineStart (level + 1) ++ quote name ++ ": " ++ prettyAt (level + 1) v ++
      prettyMembers (level + 1) ms ++ lineStart level ++ "\x7d"

/-- The text of the further elements of a list. -/
def prettyElements (level : Nat) : List Json → String
  | [] => ""
  | v :: vs => "," ++ lineStart level ++ prettyAt level v ++ prettyElements level vs

/-- The text of the further members of an object. -/
def prettyMembers (level : Nat) : List (String × Json) → String
  | [] => ""
  | (name, v) :: ms =>
    "," ++ lineStart level ++ quote name ++ ": " ++ prettyAt level v ++ prettyMembers level ms

end

/-- The text of a value, one element a line. -/
def pretty (v : Json) : String :=
  prettyAt 0 v

/-! ## Reading -/

/-- The value as a string. -/
def text? : Json → Option String
  | .text s => some s
  | _ => none

/-- The value as a number of 64 bits without sign. -/
def natural? : Json → Option Nat
  | .number (.ofNat n) => if n < UInt64.size then some n else none
  | _ => none

/-- The value as a list. -/
def array? : Json → Option (List Json)
  | .array vs => some vs
  | _ => none

/-- A value seen as a record: its members by name, of which none that is asked for may be there
twice.  A list stands for a record by the order of the names, as far as it goes. -/
def record? (names : List String) : Json → Option (List (String × Json))
  | .object members =>
    if ((members.map Prod.fst).filter names.contains).Nodup then some members else none
  | .array vs => if vs.length ≤ names.length then some (names.zip vs) else none
  | _ => none

/-! ## Holding

A reader that does not know yet what a value is to be read as holds it as it stands.  It goes down
a bounded number of levels, and holds a number of more than 64 bits in double precision: its leading
digits, times a power of ten. -/

/-- How many digits a number has behind its leading digits of 64 bits. -/
def excess (n : Nat) : Nat :=
  if n < UInt64.size then 0 else excess (n / 10) + 1
decreasing_by
  have : UInt64.size = 18446744073709551616 := rfl
  omega

/-- The number of double precision nearest to a whole number; of two as near the even one. -/
def nearestDouble (n : Nat) : Nat :=
  let unit := 1 <<< (n.log2 - 52)
  let mantissa := n / unit
  let rest := n % unit
  let isBelow := 2 * rest < unit || 2 * rest == unit && mantissa % 2 == 0
  (if isBelow then mantissa else mantissa + 1) * unit

/-- The least number that is rounded to more than double precision has. -/
def doubleBound : Nat := (1 <<< 1024) - (1 <<< 970)

/-- Whether a number can be held: its power of ten is one that double precision has, and the product
is not rounded to more than that. -/
def isFinite (n : Nat) : Bool :=
  let e := excess n
  let power := Nat.pow 10 e
  e ≤ 308 && nearestDouble (n / power) * nearestDouble power < doubleBound

mutual

/-- Whether a value can be held by a reader that goes down some levels. -/
def isHeld (levels : Nat) : Json → Bool
  | .null => true
  | .bool _ => true
  | .number n => isFinite n.natAbs
  | .text _ => true
  | .array vs => 0 < levels && areHeld (levels - 1) vs
  | .object ms => 0 < levels && membersHeld (levels - 1) ms

/-- Whether all elements of a list can be held. -/
def areHeld (levels : Nat) : List Json → Bool
  | [] => true
  | v :: vs => isHeld levels v && areHeld levels vs

/-- Whether the values of all members of an object can be held. -/
def membersHeld (levels : Nat) : List (String × Json) → Bool
  | [] => true
  | (_, v) :: ms => isHeld levels v && membersHeld levels ms

end

end Json

end SchemaLint
