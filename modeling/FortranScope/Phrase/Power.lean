import FortranScope.Phrase

/-!
# Binding powers

Operators of a higher `Power` take their operands before those of a lower one.  An
operator has its own power, `leftPower`, with which it competes for the operand before it,
and a right power, which an operator after its right operand has to exceed to take that
operand.  The two differ only for `**`, which groups from the right.
-/

namespace FortranScope

/-- The levels of precedence, lowest first. -/
inductive Power where
  | lowest
  | definedBinary
  | equivalence
  | or
  | and
  | not
  | relational
  | concat
  | additive
  | multiplicative
  | exponent
  | definedUnary
  | suffix
  | primary
deriving DecidableEq, Repr

namespace Power

/-- Every level, lowest first. -/
def all : List Power :=
  [lowest, definedBinary, equivalence, or, and, not, relational, concat, additive,
    multiplicative, exponent, definedUnary, suffix, primary]

/-- The number of levels below the given one. -/
def rank : Power → Nat
  | lowest => 0
  | definedBinary => 1
  | equivalence => 2
  | or => 3
  | and => 4
  | not => 5
  | relational => 6
  | concat => 7
  | additive => 8
  | multiplicative => 9
  | exponent => 10
  | definedUnary => 11
  | suffix => 12
  | primary => 13

instance : LE Power := ⟨fun p q => p.rank ≤ q.rank⟩

instance (p q : Power) : Decidable (p ≤ q) :=
  inferInstanceAs (Decidable (p.rank ≤ q.rank))

/-- Powers compare as their ranks do. -/
theorem le_def {p q : Power} :
  p ≤ q ↔ p.rank ≤ q.rank
  := Iff.rfl

/-- No power lies below the lowest one, from which a whole phrase is read. -/
theorem lowest_le (p : Power) :
  lowest ≤ p
  := Nat.zero_le _

end Power

/-- The power of an intrinsic operator. -/
def BinaryOperator.leftPower : BinaryOperator → Power
  | .power => .exponent
  | .multiply => .multiplicative
  | .divide => .multiplicative
  | .add => .additive
  | .subtract => .additive
  | .concat => .concat
  | .eq => .relational
  | .ne => .relational
  | .lt => .relational
  | .le => .relational
  | .gt => .relational
  | .ge => .relational
  | .and => .and
  | .or => .or
  | .eqv => .equivalence
  | .neqv => .equivalence
  | .xor => .equivalence

namespace InfixOperator

/-- The operator that `t` denotes between two operands. -/
def ofToken? (t : Token) : Option InfixOperator :=
  if t.kind = .definedOperator then some (defined t.value)
  else (BinaryOperator.ofTokenKind? t.kind).map intrinsic

/-- The power with which the operator takes the operand before it. -/
def leftPower : InfixOperator → Power
  | intrinsic operator => operator.leftPower
  | defined _ => .definedBinary

/-- The power that an operator has to exceed to take the operand after this one. -/
def rightPower : InfixOperator → Power
  | intrinsic .power => .multiplicative
  | operator => operator.leftPower

end InfixOperator

namespace PrefixOperator

/-- The operator that `t` denotes before an operand. -/
def ofToken? (t : Token) : Option PrefixOperator :=
  if t.kind = .definedOperator then some (defined t.value)
  else (UnaryOperator.ofTokenKind? t.kind).map intrinsic

/-- The power that an operator has to exceed to take the operand of this one. -/
def rightPower : PrefixOperator → Power
  | intrinsic .plus => .additive
  | intrinsic .negate => .additive
  | intrinsic .not => .not
  | defined _ => .definedUnary

end PrefixOperator

namespace TokenKind

/-- The power with which a token of the given kind takes the operand before it: that of the
operator it denotes, the highest of them for an argument list and a component, and none
for any other token. -/
def leftPower? : TokenKind → Option Power
  | .definedOperator => some .definedBinary
  | .openParen => some .suffix
  | .percent => some .suffix
  | kind => (BinaryOperator.ofTokenKind? kind).map BinaryOperator.leftPower

/-- The power of the token, `Power.lowest` if it takes no operand. -/
def leftPower (kind : TokenKind) : Power := kind.leftPower?.getD .lowest

/-- Whether an operand may begin with a token of the given kind. -/
def startsOperand : TokenKind → Bool
  | .integer => true
  | .real => true
  | .string => true
  | .logical => true
  | .identifier => true
  | .openParen => true
  | .definedOperator => true
  | kind => (UnaryOperator.ofTokenKind? kind).isSome

end TokenKind

end FortranScope
