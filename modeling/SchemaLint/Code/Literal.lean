import SchemaLint.Text.Class

/-!
# Literals in source code

Recognition of one literal at the start of a text: strings, byte strings and C strings, cooked or
raw, characters and bytes, integers and floats.  Each recogniser returns the characters of the
literal and the text after it; a suffix such as `u8` belongs to the literal.

* `literal?`: the literal a text begins with.
* `identifier?`: the identifier a text begins with.
-/

namespace SchemaLint.Code

/-- What a recogniser takes from a text and what it leaves. -/
abbrev Taken := List Char × List Char

/-- Characters put in front of what was taken. -/
def Taken.after (front : List Char) (t : Taken) : Taken :=
  (front ++ t.1, t.2)

/-- An identifier without raw mark. -/
def identifier? : List Char → Option Taken
  | [] => none
  | c :: cs =>
    if Text.isIdentStart c then
      some (c :: cs.takeWhile Text.isIdentContinue, cs.dropWhile Text.isIdentContinue)
    else none

/-- A suffix, which may be missing. -/
def suffix (cs : List Char) : Taken :=
  (identifier? cs).getD ([], cs)

/-! ## Escapes -/

/-- What a quoted literal may hold. -/
inductive QuotedKind
  /-- Any characters. -/
  | text
  /-- ASCII characters only. -/
  | bytes
  /-- Any characters but the zero character. -/
  | terminated
deriving DecidableEq, Repr

/-- Two hexadecimal digits after `\x`. -/
def hexEscape? (kind : QuotedKind) : List Char → Option Taken
  | a :: b :: cs =>
    let ok := Text.isHexDigit a && Text.isHexDigit b &&
      match kind with
      | .text => '0' ≤ a && a ≤ '7'
      | .bytes => true
      | .terminated => !(a == '0' && b == '0')
    if ok then some ([a, b], cs) else none
  | _ => none

/-- Whether a number is a Unicode scalar value. -/
def isScalar (n : Nat) : Bool :=
  n < 0xd800 || (0xdfff < n && n < 0x110000)

/-- The digits of a braced escape given how many were read and their value. -/
def bracedDigits? : Nat → Nat → List Char → Option (Nat × Taken)
  | _, _, [] => none
  | len, value, c :: cs =>
    if c == '_' && 0 < len then
      (bracedDigits? len value cs).map fun (v, t) => (v, t.after [c])
    else if c == '\x7d' && 0 < len then
      if isScalar value then some (value, [c], cs) else none
    else if Text.isHexDigit c && len < 6 then
      (bracedDigits? (len + 1) (value * 16 + Text.hexValue c) cs).map fun (v, t) => (v, t.after [c])
    else none

/-- A braced escape after `\u`, with the value it stands for. -/
def unicodeEscape? : List Char → Option (Nat × Taken)
  | '\x7b' :: cs => (bracedDigits? 0 0 cs).map fun (v, t) => (v, t.after ['\x7b'])
  | _ => none

/-- The blanks after a backslash at the end of a line.  A carriage return must stand before a
line feed, and some other character must follow. -/
def continuation? : List Char → Option Taken
  | [] => none
  | '\r' :: '\n' :: cs =>
    match cs with
    | [] => none
    | _ => (continuation? cs).map (Taken.after ['\r', '\n'])
  | '\r' :: _ => none
  | c :: cs =>
    if c == ' ' || c == '\t' || c == '\n' then (continuation? cs).map (Taken.after [c])
    else some ([], c :: cs)

/-- One step inside a quoted literal. -/
inductive QuotedStep
  /-- The literal is closed. -/
  | close (rest : List Char)
  /-- Characters that belong to the literal. -/
  | more (taken rest : List Char)
  /-- The text is not a literal of this kind. -/
  | fail
deriving Repr

/-- The step a backslash begins. -/
def escapeStep (kind : QuotedKind) : List Char → QuotedStep
  | 'x' :: cs =>
    match hexEscape? kind cs with
    | some (taken, rest) => .more ('\\' :: 'x' :: taken) rest
    | none => .fail
  | 'u' :: cs =>
    if kind = .bytes then .fail
    else
      match unicodeEscape? cs with
      | some (value, taken, rest) =>
        if kind = .terminated && value == 0 then .fail else .more ('\\' :: 'u' :: taken) rest
      | none => .fail
  | '0' :: cs => if kind = .terminated then .fail else .more ['\\', '0'] cs
  | c :: cs =>
    if c == 'n' || c == 'r' || c == 't' || c == '\\' || c == '\'' || c == '"' then
      .more ['\\', c] cs
    else if c == '\n' || c == '\r' then
      match continuation? (c :: cs) with
      | some (taken, rest) => .more ('\\' :: taken) rest
      | none => .fail
    else .fail
  | [] => .fail

/-- The next step inside a quoted literal. -/
def quotedStep (kind : QuotedKind) : List Char → QuotedStep
  | [] => .fail
  | '"' :: cs => .close cs
  | '\r' :: '\n' :: cs => .more ['\r', '\n'] cs
  | '\r' :: _ => .fail
  | '\\' :: cs => escapeStep kind cs
  | c :: cs =>
    if kind = .bytes && 0x80 ≤ c.toNat then .fail
    else if kind = .terminated && c.toNat == 0 then .fail
    else .more [c] cs

/-- The rest of a quoted literal after its opening quote.  Each step takes a character, so the
bound is never the reason to stop when it is at least the length of the text. -/
def quoted? (kind : QuotedKind) : Nat → List Char → Option Taken
  | 0, _ => none
  | bound + 1, cs =>
    match quotedStep kind cs with
    | .close rest => some ((suffix rest).after ['"'])
    | .more taken rest => (quoted? kind bound rest).map (Taken.after taken)
    | .fail => none

/-- The body of a raw literal up to its closing mark. -/
def rawBody? (kind : QuotedKind) (closing : List Char) : List Char → Option Taken
  | [] => none
  | '\r' :: '\n' :: cs => (rawBody? kind closing cs).map (Taken.after ['\r', '\n'])
  | '\r' :: _ => none
  | c :: cs =>
    if closing.isPrefixOf (c :: cs) then
      some ((suffix ((c :: cs).drop closing.length)).after closing)
    else if kind = .bytes && 0x80 ≤ c.toNat then none
    else if kind = .terminated && c.toNat == 0 then none
    else (rawBody? kind closing cs).map (Taken.after [c])

/-- A raw literal after its letters. -/
def raw? (kind : QuotedKind) (cs : List Char) : Option Taken :=
  let hashes := cs.takeWhile (· == '#')
  match cs.dropWhile (· == '#') with
  | '"' :: body =>
    if 255 < hashes.length then none
    else (rawBody? kind ('"' :: hashes) body).map (Taken.after (hashes ++ ['"']))
  | _ => none

/-! ## Strings and characters -/

/-- A string literal of any kind. -/
def string? : List Char → Option Taken
  | '"' :: cs => (quoted? .text (cs.length + 1) cs).map (Taken.after ['"'])
  | 'r' :: cs => (raw? .text cs).map (Taken.after ['r'])
  | 'b' :: '"' :: cs => (quoted? .bytes (cs.length + 1) cs).map (Taken.after ['b', '"'])
  | 'b' :: 'r' :: cs => (raw? .bytes cs).map (Taken.after ['b', 'r'])
  | 'c' :: '"' :: cs => (quoted? .terminated (cs.length + 1) cs).map (Taken.after ['c', '"'])
  | 'c' :: 'r' :: cs => (raw? .terminated cs).map (Taken.after ['c', 'r'])
  | _ => none

/-- The content of a character or byte literal. -/
def characterBody? (kind : QuotedKind) : List Char → Option Taken
  | '\\' :: 'x' :: cs => (hexEscape? kind cs).map (Taken.after ['\\', 'x'])
  | '\\' :: 'u' :: cs =>
    if kind = .bytes then none
    else (unicodeEscape? cs).map fun (_, t) => t.after ['\\', 'u']
  | '\\' :: c :: cs =>
    if c == 'n' || c == 'r' || c == 't' || c == '\\' || c == '0' || c == '\'' || c == '"' then
      some (['\\', c], cs)
    else none
  | ['\\'] => none
  | c :: cs => if kind = .bytes && 0x80 ≤ c.toNat then none else some ([c], cs)
  | [] => none

/-- A character or byte literal after its opening quote. -/
def closedCharacter? (kind : QuotedKind) (cs : List Char) : Option Taken :=
  match characterBody? kind cs with
  | some (taken, '\'' :: rest) => some ((suffix rest).after (taken ++ ['\'']))
  | _ => none

/-- A character or byte literal. -/
def character? : List Char → Option Taken
  | '\'' :: cs => (closedCharacter? .text cs).map (Taken.after ['\''])
  | 'b' :: '\'' :: cs => (closedCharacter? .bytes cs).map (Taken.after ['b', '\''])
  | _ => none

/-! ## Numbers -/

/-- A suffix directly after digits, which must end the word. -/
def numberSuffix? (cs : List Char) : Option Taken :=
  let taken := suffix cs
  match taken.2 with
  | c :: _ => if Text.isIdentContinue c then none else some taken
  | [] => some taken

/-- Exponent digits given whether a sign and a digit were read: the characters taken, whether a
digit was among them, and the rest, or nothing after a second sign. -/
def exponentDigits? : Bool → Bool → List Char → Option (List Char × Bool × List Char)
  | _, digit, [] => some ([], digit, [])
  | sign, digit, c :: cs =>
    if c == '+' || c == '-' then
      if digit then some ([], digit, c :: cs)
      else if sign then none
      else (exponentDigits? true digit cs).map fun (t, d, r) => (c :: t, d, r)
    else if c.isDigit then (exponentDigits? sign true cs).map fun (t, d, r) => (c :: t, d, r)
    else if c == '_' then (exponentDigits? sign digit cs).map fun (t, d, r) => (c :: t, d, r)
    else some ([], digit, c :: cs)

/-- An exponent after its letter. -/
def exponent? (cs : List Char) : Option Taken :=
  match exponentDigits? false false cs with
  | some (taken, true, rest) => some (taken, rest)
  | _ => none

/-- Digits and underscores. -/
def digitRun (cs : List Char) : Taken :=
  let isDigitMark (c : Char) : Bool := c.isDigit || c == '_'
  (cs.takeWhile isDigitMark, cs.dropWhile isDigitMark)

/-- The part of a float after its point: digits and perhaps an exponent. -/
def fraction (cs : List Char) : Taken :=
  let (digits, rest) := digitRun cs
  match rest with
  | c :: more =>
    if c == 'e' || c == 'E' then
      match exponent? more with
      | some t => t.after (digits ++ [c])
      | none => (digits, rest)
    else (digits, rest)
  | [] => (digits, rest)

/-- The digits of a float: a point or an exponent is needed, and a point must not begin a range
or a member access. -/
def floatDigits? : List Char → Option Taken
  | [] => none
  | c :: cs =>
    if !c.isDigit then none
    else
      let (digits, rest) := digitRun cs
      match rest with
      | '.' :: more =>
        match more with
        | d :: _ =>
          if d == '.' || Text.isIdentStart d then none
          else some ((fraction more).after (c :: digits ++ ['.']))
        | [] => some (c :: digits ++ ['.'], [])
      | e :: more =>
        if e == 'e' || e == 'E' then (exponent? more).map (Taken.after (c :: digits ++ [e]))
        else none
      | [] => none

/-- A float. -/
def float? (cs : List Char) : Option Taken :=
  match floatDigits? cs with
  | some (digits, rest) => (numberSuffix? rest).map (Taken.after digits)
  | none => none

/-- Digits of a base, given whether there were none before: nothing if a decimal digit is too large
for the base. -/
def baseDigits? (base : Nat) : Bool → List Char → Option (Bool × Taken)
  | empty, [] => some (empty, [], [])
  | empty, c :: cs =>
    if c.isDigit then
      if base ≤ Text.hexValue c then none
      else (baseDigits? base false cs).map fun (e, t) => (e, t.after [c])
    else if Text.isHexDigit c && Text.hexValue c < base then
      (baseDigits? base false cs).map fun (e, t) => (e, t.after [c])
    else if c == '_' then
      if empty && base == 10 then none
      else (baseDigits? base empty cs).map fun (e, t) => (e, t.after [c])
    else some (empty, [], c :: cs)

/-- An integer. -/
def integer? (cs : List Char) : Option Taken :=
  let (base, mark, rest) : Nat × List Char × List Char :=
    match cs with
    | '0' :: 'x' :: more => (16, ['0', 'x'], more)
    | '0' :: 'o' :: more => (8, ['0', 'o'], more)
    | '0' :: 'b' :: more => (2, ['0', 'b'], more)
    | _ => (10, [], cs)
  match baseDigits? base true rest with
  | some (false, digits, after) => (numberSuffix? after).map (Taken.after (mark ++ digits))
  | _ => none

/-- The number that digits of a base stand for. -/
def digitsValue (base : Nat) (digits : List Char) : Nat :=
  digits.foldl (fun n c => n * base + Text.hexValue c) 0

/-- The place of a tuple element that an integer without a suffix stands for, if it fits 32 bits. -/
def elementPlace? (text : String) : Option Nat :=
  let (base, marked) : Nat × List Char :=
    match text.toList with
    | '0' :: 'x' :: more => (16, more)
    | '0' :: 'o' :: more => (8, more)
    | '0' :: 'b' :: more => (2, more)
    | cs => (10, cs)
  let digits := marked.filter (· != '_')
  if digits.isEmpty || digits.any fun c => !Text.isHexDigit c || base ≤ Text.hexValue c then none
  else if digitsValue base digits < UInt32.size then some (digitsValue base digits)
  else none

/-- The literal a text begins with. -/
def literal? (cs : List Char) : Option Taken :=
  (string? cs).or <| (character? cs).or <| (float? cs).or <| integer? cs

end SchemaLint.Code
