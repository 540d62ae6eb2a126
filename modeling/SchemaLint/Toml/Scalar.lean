import SchemaLint.Toml.Lexical
import SchemaLint.Toml.Value

/-!
# Numbers, dates and times of TOML

* `Toml.wholeNumber`: integers, which have to fit in 64 bits.
* `Toml.floatNumber`: floats; a positive one that is too large to be represented is refused.
* `Toml.moment`: dates and times; the day has to exist.
-/

namespace SchemaLint.Toml

/-! ## Digits -/

/-- Digits of a kind, with single underscores between them. -/
def digitRun (p : Char → Bool) : Reader (List Char) := do
  let first ← charThat p
  let rest ← many do
    if (← peek?) == some '_' then
      let _ ← anyChar
    charThat p
  return first :: rest

/-- The value of digits in a base. -/
def digitsValue (base : Nat) (ds : List Char) : Nat :=
  ds.foldl (fun n c => n * base + Text.hexValue c) 0

/-- A sign, and whether it is a minus. -/
def sign : Reader Bool := do
  match ← peek? with
  | some '-' =>
    let _ ← anyChar
    return true
  | some '+' =>
    let _ ← anyChar
    return false
  | _ => return false

/-- The digits of a decimal number, which does not begin with a zero unless it is zero. -/
def decimalDigits : Reader (List Char) := do
  match ← peek? with
  | some '0' =>
    let _ ← anyChar
    return ['0']
  | _ => digitRun Char.isDigit

/-! ## Integers -/

/-- Whether a number fits in 64 bits with sign. -/
def fits (n : Int) : Bool :=
  Int64.minValue.toInt ≤ n && n ≤ Int64.maxValue.toInt

/-- A number in a base other than ten, after its mark. -/
def basedNumber (base : Nat) (p : Char → Bool) : Reader Int := do
  let _ ← anyChar
  let _ ← anyChar
  return digitsValue base (← digitRun p)

/-- An integer. -/
def wholeNumber : Reader Value := do
  let n ← match ← get with
    | '0' :: 'x' :: _ => basedNumber 16 Text.isHexDigit
    | '0' :: 'o' :: _ => basedNumber 8 fun c => '0' ≤ c && c ≤ '7'
    | '0' :: 'b' :: _ => basedNumber 2 fun c => c == '0' || c == '1'
    | _ => do
      let negative ← sign
      let ds ← decimalDigits
      let n : Int := digitsValue 10 ds
      pure (if negative then -n else n)
  require (fits n)
  return .integer n

/-! ## Floats -/

/-- The least number that rounds to infinity in the format of 64 bits. -/
def overflowBound : Nat := Nat.pow 2 1024 - Nat.pow 2 970

/-- Whether `mantissa` times ten to the power of `exponent` rounds to infinity. -/
def overflows (mantissa : Nat) (digits : Nat) (exponent : Int) : Bool :=
  if mantissa = 0 then false
  else if (digits : Int) + exponent < 300 then false
  else if 400 < exponent then true
  else if 0 ≤ exponent then overflowBound ≤ mantissa * Nat.pow 10 exponent.toNat
  else overflowBound * Nat.pow 10 (-exponent).toNat ≤ mantissa

/-- The exponent of a float. -/
def exponentPart : Reader Int := do
  let _ ← charThat fun c => c == 'e' || c == 'E'
  let negative ← sign
  let n : Int := digitsValue 10 (← digitRun Char.isDigit)
  return if negative then -n else n

/-- The digits after the point of a float. -/
def fractionPart : Reader (List Char) := do
  piece ['.']
  digitRun Char.isDigit

/-- A float in digits. -/
def digitFloat : Reader Unit := do
  let negative ← sign
  let whole ← decimalDigits
  let fraction ← optional fractionPart
  let exponent ← optional exponentPart
  require (fraction.isSome || exponent.isSome)
  let ds := whole ++ fraction.getD []
  let scale : Int := exponent.getD 0 - (fraction.getD []).length
  require (negative || !overflows (digitsValue 10 ds) ds.length scale)

/-- A float that is no number, or infinite. -/
def specialFloat : Reader Unit := do
  let _ ← sign
  match ← peek? with
  | some 'i' => piece ['i', 'n', 'f']
  | _ => piece ['n', 'a', 'n']

/-- A float. -/
def floatNumber : Reader Value := do
  let before ← get
  match ← optional digitFloat with
  | some () => pure ()
  | none => specialFloat
  return .float (String.ofList (before.take (before.length - (← get).length)))

/-! ## Dates and times -/

/-- A number of exactly so many digits, in a range. -/
def fixedNumber (digits least greatest : Nat) : Reader Nat := do
  let ds ← (List.replicate digits ()).mapM fun _ => charThat Char.isDigit
  let n := digitsValue 10 ds
  require (least ≤ n && n ≤ greatest)
  return n

/-- The number of days of a month. -/
def daysOf (year month : Nat) : Nat :=
  if month = 2 then
    if year % 4 = 0 ∧ (year % 100 ≠ 0 ∨ year % 400 = 0) then 29 else 28
  else if month = 4 ∨ month = 6 ∨ month = 9 ∨ month = 11 then 30
  else 31

/-- A date. -/
def date : Reader Unit := do
  let year ← fixedNumber 4 0 9999
  piece ['-']
  let month ← fixedNumber 2 1 12
  piece ['-']
  let _ ← fixedNumber 2 1 (daysOf year month)

/-- A time of a day; a minute may have a leap second. -/
def timeOfDay : Reader Unit := do
  let _ ← fixedNumber 2 0 23
  piece [':']
  let _ ← fixedNumber 2 0 59
  piece [':']
  let _ ← fixedNumber 2 0 60
  let _ ← optional do
    piece ['.']
    let ds ← run Char.isDigit
    require !ds.isEmpty

/-- The offset of a time from universal time. -/
def timeOffset : Reader Unit := do
  let c ← charThat fun c => c == 'Z' || c == 'z' || c == '+' || c == '-'
  if c == '+' || c == '-' then
    let _ ← fixedNumber 2 0 23
    piece [':']
    let _ ← fixedNumber 2 0 59

/-- A date, a time, or both. -/
def moment : Reader Value := do
  match ← optional date with
  | some () =>
    let _ ← optional do
      let _ ← charThat fun c => c == 'T' || c == 't' || c == ' '
      timeOfDay
      optional timeOffset
  | none => timeOfDay
  return .moment

end SchemaLint.Toml
