/-!
# JSON text

`Json.ofText?` reads one JSON value.  A number keeps its digits as they are written, and a
string is absent if its escapes name half of a surrogate pair, so that a reader may
ignore such values where it has no use for them.
-/

namespace FortranScope

/-- A JSON value.  The members of an object keep their order and may repeat. -/
inductive Json where
  | null
  | bool (value : Bool)
  | number (digits : String)
  | string (text : Option String)
  | array (items : List Json)
  | object (members : List (Option String × Json))

namespace Json

/-- `s` without the blanks before its first other character. -/
def skipBlanks (s : List Char) : List Char :=
  s.dropWhile fun c => c = ' ' || c = '\t' || c = '\n' || c = '\r'

/-! ## Strings -/

/-- The value of `c` as a hexadecimal digit. -/
def hexDigit? (c : Char) : Option Nat :=
  if c.isDigit then some (c.toNat - '0'.toNat)
  else if 'a' ≤ c ∧ c ≤ 'f' then some (c.toNat - 'a'.toNat + 10)
  else if 'A' ≤ c ∧ c ≤ 'F' then some (c.toNat - 'A'.toNat + 10)
  else none

/-- The number that four hexadecimal digits at the beginning of `s` write. -/
def hexUnit? : List Char → Option (Nat × List Char)
  | a :: b :: c :: d :: s => do
    let a ← hexDigit? a
    let b ← hexDigit? b
    let c ← hexDigit? c
    let d ← hexDigit? d
    some (((a * 16 + b) * 16 + c) * 16 + d, s)
  | _ => none

/-- The character that a backslash and the letter `c` stand for. -/
def shortEscape? (c : Char) : Option Char :=
  if c = '\x22' then some '\x22'
  else if c = '\x5c' then some '\x5c'
  else if c = '/' then some '/'
  else if c = 'b' then some '\x08'
  else if c = 'f' then some '\x0c'
  else if c = 'n' then some '\n'
  else if c = 'r' then some '\r'
  else if c = 't' then some '\t'
  else none

/-- The code units of the string whose opening quote `s` follows, up to its closing quote,
and the text after that: the code point of a character that stands for itself, or the
number that an escape writes. -/
def readUnits : Nat → List Char → Option (List Nat × List Char)
  | 0, _ => none
  | fuel + 1, s =>
    match s with
    | [] => none
    | c :: s =>
      if c = '\x22' then some ([], s)
      else if c = '\x5c' then
        match s with
        | [] => none
        | e :: s =>
          if e = 'u' then do
            let (unit, s) ← hexUnit? s
            let (units, s) ← readUnits fuel s
            some (unit :: units, s)
          else do
            let unit ← shortEscape? e
            let (units, s) ← readUnits fuel s
            some (unit.toNat :: units, s)
      else if c.toNat < 0x20 then none
      else do
        let (units, s) ← readUnits fuel s
        some (c.toNat :: units, s)

/-- Whether `unit` is the first half of a surrogate pair. -/
def isHigh (unit : Nat) : Bool := 0xD800 ≤ unit && unit < 0xDC00

/-- Whether `unit` is the second half of a surrogate pair. -/
def isLow (unit : Nat) : Bool := 0xDC00 ≤ unit && unit < 0xE000

/-- The characters that code units stand for; there are none if half of a surrogate pair
stands alone. -/
def decodeUnits? : List Nat → Option (List Char)
  | [] => some []
  | [u] => if isHigh u || isLow u then none else some [Char.ofNat u]
  | u :: v :: units =>
    if isHigh u then
      if isLow v then
        (decodeUnits? units).map
          (Char.ofNat (0x10000 + (u - 0xD800) * 0x400 + (v - 0xDC00)) :: ·)
      else none
    else if isLow u then none
    else (decodeUnits? (v :: units)).map (Char.ofNat u :: ·)

/-- The string whose opening quote `s` follows, and the text after it. -/
def readString (s : List Char) : Option (Option String × List Char) := do
  let (units, s) ← readUnits (s.length + 1) s
  some ((decodeUnits? units).map String.ofList, s)

/-! ## Numbers -/

/-- The digits at the beginning of `s`, of which there has to be one. -/
def readDigits (s : List Char) : Option (List Char × List Char) :=
  if s.takeWhile Char.isDigit = [] then none
  else some (s.takeWhile Char.isDigit, s.dropWhile Char.isDigit)

/-- The digits before the point of a number; more than one do not begin with `0`. -/
def readWhole (s : List Char) : Option (List Char × List Char) := do
  let (digits, s) ← readDigits s
  if digits.head? = some '0' ∧ digits.length ≠ 1 then none else some (digits, s)

/-- A point with its digits, if the text begins with a point. -/
def readFraction (s : List Char) : Option (List Char × List Char) :=
  match s with
  | '.' :: s => (readDigits s).map fun r => ('.' :: r.1, r.2)
  | s => some ([], s)

/-- An exponent, if the text begins with its letter. -/
def readExponent (s : List Char) : Option (List Char × List Char) :=
  match s with
  | [] => some ([], [])
  | c :: t =>
    if c = 'e' ∨ c = 'E' then
      match t with
      | '+' :: t => (readDigits t).map fun r => (c :: '+' :: r.1, r.2)
      | '-' :: t => (readDigits t).map fun r => (c :: '-' :: r.1, r.2)
      | t => (readDigits t).map fun r => (c :: r.1, r.2)
    else some ([], c :: t)

/-- A number without its sign. -/
def readUnsigned (s : List Char) : Option (List Char × List Char) := do
  let (whole, s) ← readWhole s
  let (fraction, s) ← readFraction s
  let (exponent, s) ← readExponent s
  some (whole ++ fraction ++ exponent, s)

/-- The number that `s` begins with, and the text after it. -/
def readNumber (s : List Char) : Option (Json × List Char) :=
  match s with
  | '-' :: s => (readUnsigned s).map fun r => (number (String.ofList ('-' :: r.1)), r.2)
  | s => (readUnsigned s).map fun r => (number (String.ofList r.1), r.2)

/-! ## Values -/

/-- The text after `word`, if `s` begins with it. -/
def expect (word : List Char) (s : List Char) : Option (List Char) :=
  if word.isPrefixOf s then some (s.drop word.length) else none

mutual

/-- The value that `s` begins with, and the text after it, with at most `fuel` steps. -/
def readValue : Nat → List Char → Option (Json × List Char)
  | 0, _ => none
  | fuel + 1, s =>
    match skipBlanks s with
    | [] => none
    | c :: t =>
      if c = '\x7b' then
        match expect ['\x7d'] (skipBlanks t) with
        | some t => some (object [], t)
        | none => (readMembers fuel t).map fun r => (object r.1, r.2)
      else if c = '[' then
        match expect [']'] (skipBlanks t) with
        | some t => some (array [], t)
        | none => (readItems fuel t).map fun r => (array r.1, r.2)
      else if c = '\x22' then (readString t).map fun r => (string r.1, r.2)
      else if c = 'n' then (expect ['u', 'l', 'l'] t).map fun t => (null, t)
      else if c = 't' then (expect ['r', 'u', 'e'] t).map fun t => (bool true, t)
      else if c = 'f' then (expect ['a', 'l', 's', 'e'] t).map fun t => (bool false, t)
      else readNumber (c :: t)

/-- The items of an array up to its closing bracket, of which there has to be one. -/
def readItems : Nat → List Char → Option (List Json × List Char)
  | 0, _ => none
  | fuel + 1, s => do
    let (item, s) ← readValue fuel s
    match skipBlanks s with
    | ',' :: s =>
      let (items, s) ← readItems fuel s
      some (item :: items, s)
    | ']' :: s => some ([item], s)
    | _ => none

/-- The members of an object up to its closing brace, of which there has to be one. -/
def readMembers : Nat → List Char → Option (List (Option String × Json) × List Char)
  | 0, _ => none
  | fuel + 1, s => do
    let s ← expect ['\x22'] (skipBlanks s)
    let (key, s) ← readString s
    let s ← expect [':'] (skipBlanks s)
    let (value, s) ← readValue fuel s
    match skipBlanks s with
    | [] => none
    | c :: s =>
      if c = ',' then
        let (members, s) ← readMembers fuel s
        some ((key, value) :: members, s)
      else if c = '\x7d' then some ([(key, value)], s)
      else none

end

/-- The JSON value that the text `s` writes, if it writes one and nothing else. -/
def ofText? (s : String) : Option Json := do
  let (value, rest) ← readValue (2 * s.length + 2) s.toList
  if skipBlanks rest = [] then some value else none

end Json

end FortranScope
