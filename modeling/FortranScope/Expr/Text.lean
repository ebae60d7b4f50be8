import FortranScope.Expr

/-!
# How expressions are written

`Expr.text` writes an expression with as few parentheses of its own as the precedence of
the operators allows.  An operand is put into parentheses if its `Expr.level` is too low
for the place where it stands.
-/

namespace FortranScope

/-- The precedence of the operator. -/
def UnaryOperator.level : UnaryOperator → Nat
  | .not => 4
  | .plus => 7
  | .negate => 7

/-- The precedence of the operator. -/
def BinaryOperator.level : BinaryOperator → Nat
  | .eqv => 1
  | .neqv => 1
  | .xor => 1
  | .or => 2
  | .and => 3
  | .eq => 5
  | .ne => 5
  | .lt => 5
  | .le => 5
  | .gt => 5
  | .ge => 5
  | .concat => 6
  | .add => 7
  | .subtract => 7
  | .multiply => 8
  | .divide => 8
  | .power => 9

/-- The lowest level an operand before the operator may have without parentheses. -/
def BinaryOperator.leftLevel (operator : BinaryOperator) : Nat :=
  if operator = .power then operator.level + 1 else operator.level

/-- The lowest level an operand after the operator may have without parentheses. -/
def BinaryOperator.rightLevel (operator : BinaryOperator) : Nat :=
  if operator = .power then operator.level else operator.level + 1

namespace Expr

/-- The level of an expression that is no operation. -/
def primaryLevel : Nat := 10

/-- The precedence of the outermost operation of an expression.  A negative integer counts as
the operation that its sign is. -/
def level : Expr → Nat
  | constant (.integer value _) => if value < 0 then UnaryOperator.negate.level else primaryLevel
  | unary operator _ => operator.level
  | binary operator _ _ => operator.level
  | _ => primaryLevel

/-- `text` in parentheses unless `level` is at least `least`. -/
def operandText (least level : Nat) (text : String) : String :=
  if least ≤ level then text else "(" ++ text ++ ")"

/-- A keyword with the sign after it. -/
def keywordText : Option String → String
  | none => ""
  | some keyword => keyword ++ "="

mutual

/-- How `e` is written. -/
def text : Expr → String
  | constant value => value.text
  | designator name _ => name
  | component base name =>
    operandText primaryLevel base.level base.text ++ "%" ++ name
  | reference name _ args => name ++ "(" ++ args.text ++ ")"
  | parentheses inner => "(" ++ inner.text ++ ")"
  | unary operator operand =>
    operator.spelling ++ operandText (operator.level + 1) operand.level operand.text
  | binary operator left right =>
    operandText operator.leftLevel left.level left.text ++ operator.spelling
      ++ operandText operator.rightLevel right.level right.text

/-- The arguments with commas between them. -/
def Args.text : Args → String
  | .nil => ""
  | .cons keyword value .nil => keywordText keyword ++ value.text
  | .cons keyword value rest => keywordText keyword ++ value.text ++ "," ++ rest.text

end

end Expr

end FortranScope
