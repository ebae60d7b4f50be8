import FortranScope.Text.Blank
import FortranScope.Token

/-!
# Lexemes

The lexeme that a text begins with is fixed by the first character of the text and by how
far the run that this character opens extends.  `Lexeme.first?` gives the `Shape` of that
lexeme and how many characters it has beyond the first; `Shape.kind?` and `Shape.value`
give the token that the characters of a lexeme spell.
-/

namespace FortranScope

/-- What the characters of a lexeme are: a blank run or a comment, which spell no token, a
number, a word, a word between two points, quoted characters, or a symbol of the kind
given. -/
inductive Shape where
  | skipped
  | integer
  | real
  | word
  | dotted
  | quoted
  | symbol (kind : TokenKind)
deriving DecidableEq, Repr

/-- The shape of a lexeme and the number of its characters beyond the first. -/
structure Lexeme where
  shape : Shape
  more : Nat
deriving DecidableEq, Repr

namespace Lexeme

/-! ## Runs of characters -/

/-- Whether `c` may stand in a word after its first letter. -/
def isWordChar (c : Char) : Bool := c.isAlphanum || c = '_'

/-- The length of the longest beginning of `s` all of whose characters satisfy `p`. -/
def runLength (p : Char → Bool) (s : List Char) : Nat := (s.takeWhile p).length

/-- A run is no longer than the text it is measured on. -/
theorem runLength_le (p : Char → Bool) (s : List Char) :
  runLength p s ≤ s.length
  := by
  rw [runLength]
  apply List.IsPrefix.length_le
  apply List.takeWhile_prefix

/-! ## Numbers -/

/-- The length of a point with digits after it at the beginning of a text; a point that no
digit follows counts for nothing. -/
def fractionLength : List Char → Nat
  | '.' :: s => if runLength Char.isDigit s = 0 then 0 else runLength Char.isDigit s + 1
  | _ => 0

/-- The length of the digits of an exponent, with its optional sign, at the beginning of a
text, or `0` if there are none. -/
def exponentDigitsLength : List Char → Nat
  | [] => 0
  | c :: s =>
    if c = '+' ∨ c = '-' then
      if runLength Char.isDigit s = 0 then 0 else runLength Char.isDigit s + 1
    else runLength Char.isDigit (c :: s)

/-- Whether `c` introduces an exponent. -/
def isExponentLetter (c : Char) : Bool := c = 'e' || c = 'E' || c = 'd' || c = 'D'

/-- The length of an exponent at the beginning of a text; a letter that no digits follow
counts for nothing. -/
def exponentLength : List Char → Nat
  | [] => 0
  | c :: s =>
    if isExponentLetter c then
      if exponentDigitsLength s = 0 then 0 else exponentDigitsLength s + 1
    else 0

/-- The length of an underscore with word characters after it at the beginning of a text; an
underscore that none follows counts for nothing. -/
def kindLength : List Char → Nat
  | '_' :: s => if runLength isWordChar s = 0 then 0 else runLength isWordChar s + 1
  | _ => 0

/-- The number whose first digit `s` follows: digits, a fraction, an exponent and a kind, of
which all but the digits may be missing.  It is real if it has a fraction or an
exponent. -/
def number (s : List Char) : Lexeme :=
  let digits := runLength Char.isDigit s
  let fraction := fractionLength (s.drop digits)
  let exponent := exponentLength (s.drop (digits + fraction))
  let kind := kindLength (s.drop (digits + fraction + exponent))
  ⟨if fraction = 0 ∧ exponent = 0 then .integer else .real,
    digits + fraction + exponent + kind⟩

/-! ## Dotted words and quoted characters -/

/-- The dotted word whose opening point `s` follows: letters and a closing point. -/
def dotted? (s : List Char) : Option Lexeme :=
  let letters := runLength Char.isAlpha s
  if letters = 0 then none
  else if (s.drop letters).head? = some '.' then some ⟨.dotted, letters + 1⟩
  else none

/-- The number of characters up to and including the quote `q` that closes the quoted text
whose opening quote the characters follow.  A quote closes unless another one follows it
at once and the text after these two is closed in turn. -/
def closingLength? (q : Char) : List Char → Option Nat
  | [] => none
  | [c] => if c = q then some 1 else none
  | c :: d :: s =>
    if c = q then
      if d = q then
        match closingLength? q s with
        | some n => some (n + 2)
        | none => some 1
      else some 1
    else (closingLength? q (d :: s)).map (· + 1)

/-! ## Symbols -/

/-- The symbol that `c` begins when `s` follows it, as its kind and the number of its
characters beyond the first.  A symbol of two characters is preferred. -/
def symbol? (c : Char) (s : List Char) : Option (TokenKind × Nat) :=
  match c, s.head? with
  | '*', some '*' => some (.power, 1)
  | '*', _ => some (.star, 0)
  | '/', some '/' => some (.concat, 1)
  | '/', some '=' => some (.notEquals, 1)
  | '/', _ => some (.slash, 0)
  | '=', some '=' => some (.equals, 1)
  | '=', _ => some (.assignment, 0)
  | '<', some '=' => some (.lessEquals, 1)
  | '<', _ => some (.less, 0)
  | '>', some '=' => some (.greaterEquals, 1)
  | '>', _ => some (.greater, 0)
  | '+', _ => some (.plus, 0)
  | '-', _ => some (.dash, 0)
  | '(', _ => some (.openParen, 0)
  | ')', _ => some (.closeParen, 0)
  | ',', _ => some (.comma, 0)
  | '%', _ => some (.percent, 0)
  | _, _ => none

/-! ## The first lexeme of a text -/

/-- The lexeme that begins with `c` when `s` follows it.  There is none if no lexeme begins
with `c`, or if the dotted word or the quoted text that `c` opens is not completed. -/
def first? (c : Char) (s : List Char) : Option Lexeme :=
  if Text.isBlank c then some ⟨.skipped, runLength Text.isBlank s⟩
  else if c = '!' then some ⟨.skipped, runLength (· ≠ '\n') s⟩
  else if c.isDigit then some (number s)
  else if c.isAlpha then some ⟨.word, runLength isWordChar s⟩
  else if c = '.' then dotted? s
  else if c = '\x27' ∨ c = '\x22' then (closingLength? c s).map (⟨.quoted, ·⟩)
  else (symbol? c s).map fun m => ⟨.symbol m.1, m.2⟩

end Lexeme

/-! ## What a lexeme spells -/

/-- The kind of the dotted word `word`, written in small letters.  A word with no fixed
meaning is an operator that the program defines. -/
def dottedKind (word : String) : TokenKind :=
  match word with
  | ".true." => .logical
  | ".false." => .logical
  | ".and." => .and
  | ".or." => .or
  | ".not." => .not
  | ".eqv." => .eqv
  | ".neqv." => .neqv
  | ".xor." => .xor
  | ".eq." => .equals
  | ".ne." => .notEquals
  | ".lt." => .less
  | ".le." => .lessEquals
  | ".gt." => .greater
  | ".ge." => .greaterEquals
  | _ => .definedOperator

/-- `s` with every pair of quotes `q` made one. -/
def halveQuotes (q : Char) : List Char → List Char
  | [] => []
  | [c] => [c]
  | c :: d :: s =>
    if c = q ∧ d = q then q :: halveQuotes q s else c :: halveQuotes q (d :: s)

/-- The characters that the quoted text `s` stands for: those between its two quotes, with
doubled quotes made one. -/
def unquoted : List Char → List Char
  | [] => []
  | q :: s => halveQuotes q s.dropLast

/-- The value of a lexeme with the characters `s`.  Letter case counts in quoted text
only. -/
def Shape.value (shape : Shape) (s : List Char) : String :=
  match shape with
  | .quoted => String.ofList (unquoted s)
  | .symbol _ => String.ofList s
  | _ => String.ofList (Text.foldChars s)

/-- The kind of token that a lexeme with the characters `s` spells, if it spells one. -/
def Shape.kind? (shape : Shape) (s : List Char) : Option TokenKind :=
  match shape with
  | .skipped => none
  | .integer => some .integer
  | .real => some .real
  | .word => some .identifier
  | .dotted => some (dottedKind (String.ofList (Text.foldChars s)))
  | .quoted => some .string
  | .symbol kind => some kind

/-- The token that a lexeme with the characters `s` at `span` spells, if it spells one. -/
def Shape.token? (shape : Shape) (s : List Char) (span : Span) : Option Token :=
  (shape.kind? s).map fun kind => ⟨kind, shape.value s, span⟩

end FortranScope
