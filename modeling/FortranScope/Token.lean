import FortranScope.Source

/-!
# Tokens

A `Token` is a lexeme of expression text: its `TokenKind`, its value, which is the text
that later stages read, and the span it was cut from.  The last token of a source has
kind `TokenKind.eof`.
-/

namespace FortranScope

/-- The kinds of tokens.  The two spellings of a relational operator, such as `==` and
`.EQ.`, give the same kind. -/
inductive TokenKind where
  | eof
  | integer
  | real
  | string
  | logical
  | identifier
  | definedOperator
  | openParen
  | closeParen
  | comma
  | assignment
  | percent
  | equals
  | notEquals
  | less
  | lessEquals
  | greater
  | greaterEquals
  | and
  | or
  | not
  | eqv
  | neqv
  | xor
  | plus
  | dash
  | star
  | slash
  | power
  | concat
deriving DecidableEq, Repr, Inhabited

namespace TokenKind

/-- The word a kind is shown by. -/
def text : TokenKind → String
  | eof => "EOF"
  | integer => "Integer"
  | real => "Real"
  | string => "String"
  | logical => "Logical"
  | identifier => "Identifier"
  | definedOperator => "DefinedOperator"
  | openParen => "OpenParen"
  | closeParen => "CloseParen"
  | comma => "Comma"
  | assignment => "Assignment"
  | percent => "Percent"
  | equals => "Equals"
  | notEquals => "NotEquals"
  | less => "Less"
  | lessEquals => "LessEquals"
  | greater => "Greater"
  | greaterEquals => "GreaterEquals"
  | and => "And"
  | or => "Or"
  | not => "Not"
  | eqv => "Eqv"
  | neqv => "Neqv"
  | xor => "Xor"
  | plus => "Plus"
  | dash => "Dash"
  | star => "Star"
  | slash => "Slash"
  | power => "Power"
  | concat => "Concat"

/-- Every kind, in the order of declaration. -/
def all : List TokenKind :=
  [eof, integer, real, string, logical, identifier, definedOperator, openParen, closeParen,
    comma, assignment, percent, equals, notEquals, less, lessEquals, greater, greaterEquals,
    and, or, not, eqv, neqv, xor, plus, dash, star, slash, power, concat]

/-- Whether tokens of the kind differ by their value, which is then shown with them. -/
def carriesValue : TokenKind → Bool
  | integer => true
  | real => true
  | string => true
  | logical => true
  | identifier => true
  | definedOperator => true
  | _ => false

end TokenKind

/-- A lexeme with its place in the source. -/
structure Token where
  kind : TokenKind
  value : String
  span : Span
deriving DecidableEq, Repr, Inhabited

/-- The kind of `t`, and its value in parentheses where the kind does not fix it. -/
def Token.text (t : Token) : String :=
  if t.kind.carriesValue then t.kind.text ++ " (" ++ t.value ++ ")" else t.kind.text

/-- The token that ends `file` at `offset`. -/
def Token.ending (file : String) (offset : Nat) : Token :=
  ⟨.eof, "EOF", ⟨file, offset, offset⟩⟩

end FortranScope
