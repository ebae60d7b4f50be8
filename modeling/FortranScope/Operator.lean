import FortranScope.Token

/-!
# Intrinsic operators

The operators of the language with one and with two operands, their spellings, and the
operator that each kind of token denotes.
-/

namespace FortranScope

/-- The intrinsic operators with one operand. -/
inductive UnaryOperator where
  | plus
  | negate
  | not
deriving DecidableEq, Repr

namespace UnaryOperator

/-- The operator that a token of the given kind denotes before an operand. -/
def ofTokenKind? : TokenKind → Option UnaryOperator
  | .plus => some plus
  | .dash => some negate
  | .not => some not
  | _ => none

/-- The kind of the tokens that denote the operator. -/
def tokenKind : UnaryOperator → TokenKind
  | plus => .plus
  | negate => .dash
  | not => .not

/-- How the operator is written. -/
def spelling : UnaryOperator → String
  | plus => "+"
  | negate => "-"
  | not => ".NOT."

/-- A prefix operator is found exactly from its own kind of token. -/
theorem ofTokenKind?_eq_some_iff {k : TokenKind} {o : UnaryOperator} :
  ofTokenKind? k = some o ↔ k = o.tokenKind
  := by
  cases k <;> cases o <;> decide

end UnaryOperator

/-- The intrinsic operators with two operands. -/
inductive BinaryOperator where
  | power
  | multiply
  | divide
  | add
  | subtract
  | concat
  | eq
  | ne
  | lt
  | le
  | gt
  | ge
  | and
  | or
  | eqv
  | neqv
  | xor
deriving DecidableEq, Repr

namespace BinaryOperator

/-- The operator that a token of the given kind denotes between two operands. -/
def ofTokenKind? : TokenKind → Option BinaryOperator
  | .power => some power
  | .star => some multiply
  | .slash => some divide
  | .plus => some add
  | .dash => some subtract
  | .concat => some concat
  | .equals => some eq
  | .notEquals => some ne
  | .less => some lt
  | .lessEquals => some le
  | .greater => some gt
  | .greaterEquals => some ge
  | .and => some and
  | .or => some or
  | .eqv => some eqv
  | .neqv => some neqv
  | .xor => some xor
  | _ => none

/-- The kind of the tokens that denote the operator. -/
def tokenKind : BinaryOperator → TokenKind
  | power => .power
  | multiply => .star
  | divide => .slash
  | add => .plus
  | subtract => .dash
  | concat => .concat
  | eq => .equals
  | ne => .notEquals
  | lt => .less
  | le => .lessEquals
  | gt => .greater
  | ge => .greaterEquals
  | and => .and
  | or => .or
  | eqv => .eqv
  | neqv => .neqv
  | xor => .xor

/-- How the operator is written. -/
def spelling : BinaryOperator → String
  | power => "**"
  | multiply => "*"
  | divide => "/"
  | add => "+"
  | subtract => "-"
  | concat => "//"
  | eq => "=="
  | ne => "/="
  | lt => "<"
  | le => "<="
  | gt => ">"
  | ge => ">="
  | and => ".AND."
  | or => ".OR."
  | eqv => ".EQV."
  | neqv => ".NEQV."
  | xor => ".XOR."

/-- Whether the operator compares its operands. -/
def isRelational : BinaryOperator → Bool
  | eq => true
  | ne => true
  | lt => true
  | le => true
  | gt => true
  | ge => true
  | _ => false

/-- An infix operator is found exactly from its own kind of token. -/
theorem ofTokenKind?_eq_some_iff {k : TokenKind} {o : BinaryOperator} :
  ofTokenKind? k = some o ↔ k = o.tokenKind
  := by
  cases k <;> cases o <;> decide

end BinaryOperator

end FortranScope
