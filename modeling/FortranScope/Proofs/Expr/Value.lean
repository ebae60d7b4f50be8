import FortranScope.Constant.Evaluation
import FortranScope.Expr
import Mathlib.Algebra.Group.Nat.Defs
import Mathlib.Algebra.Ring.Int.Defs

/-!
# The values of expressions

`Expr.value` is what an expression means, with its kind: integers are not bounded, and an
operation that is undefined has no value.  What the expression does not fix by itself, such as
the values of its names, is fixed by an `Interpretation`.
-/

namespace FortranScope

/-- A value.  What a real number is, or a value of any further type, is left open. -/
inductive Value (α : Type) where
  | integer (value kind : Int)
  | logical (value : Bool) (kind : Int)
  | character (value : String) (kind : Int)
  | real (content : α) (kind : Int)
  | other (content : α)
deriving DecidableEq, Repr

namespace Value

variable {α : Type}

/-- The kind of a value of one of the four types that constants have. -/
def kind? : Value α → Option Int
  | integer _ kind => some kind
  | logical _ kind => some kind
  | character _ kind => some kind
  | real _ kind => some kind
  | other _ => none

/-- An integer with its kind. -/
def integer? : Value α → Option (Int × Int)
  | integer value kind => some (value, kind)
  | _ => none

end Value

/-- The meaning of real literals, of designators and of components, of operators at values that
they are no intrinsic operators for, and of function references.  Where it gives `none` there
is no value. -/
structure Interpretation (α : Type) where
  real : String → Int → α
  designator : String → SymbolId → Option (Value α)
  component : Option (Value α) → String → Option (Value α)
  unary : UnaryOperator → Value α → Option (Value α)
  binary : BinaryOperator → Value α → Value α → Option (Value α)
  reference : String → Option SymbolId → List (Option String × Option (Value α)) →
    Option (Value α)

/-! ## Operations on integers -/

namespace Integer

/-- The quotient truncated toward zero. -/
def quotient? (a b : Int) : Option Int := if b = 0 then none else some (a.tdiv b)

/-- What the truncated quotient leaves. -/
def remainder? (a b : Int) : Option Int := if b = 0 then none else some (a.tmod b)

/-- The power, which for a negative exponent is a reciprocal truncated toward zero. -/
def power? (base exponent : Int) : Option Int :=
  if 0 ≤ exponent then some (base ^ exponent.toNat)
  else if base = 0 then none
  else some (Int.tdiv 1 (base ^ (-exponent).toNat))

/-- The least number of bytes, of those that integers may have, in which every integer between
the powers `-10 ^ range` and `10 ^ range` is represented; `-1` if there is none. -/
def bytesForRange (range : Int) : Int :=
  match [1, 2, 4, 8].find? fun bytes => 10 ^ range.toNat ≤ 2 ^ (8 * bytes - 1) with
  | some bytes => (bytes : Nat)
  | none => -1

end Integer

/-! ## Operators and functions -/

section

variable {α : Type} (config : Config) (I : Interpretation α)

/-- The value that a constant is. -/
def Constant.denoted : Constant → Value α
  | integer value kind => .integer value kind
  | real digits kind => .real (I.real digits kind) kind
  | logical value kind => .logical value kind
  | character value kind => .character value kind

/-- The value of an operator before its operand. -/
def UnaryOperator.value : UnaryOperator → Value α → Option (Value α)
  | .plus, .integer n k => some (.integer n k)
  | .negate, .integer n k => some (.integer (-n) k)
  | .not, .logical a k => some (.logical (!a) k)
  | operator, v => I.unary operator v

/-- The value of an operator between its operands. -/
def BinaryOperator.value : BinaryOperator → Value α → Value α → Option (Value α)
  | .add, .integer a ka, .integer b kb => some (.integer (a + b) (max ka kb))
  | .subtract, .integer a ka, .integer b kb => some (.integer (a - b) (max ka kb))
  | .multiply, .integer a ka, .integer b kb => some (.integer (a * b) (max ka kb))
  | .divide, .integer a ka, .integer b kb =>
    (Integer.quotient? a b).map (.integer · (max ka kb))
  | .power, .integer a ka, .integer b kb => (Integer.power? a b).map (.integer · (max ka kb))
  | .eq, .integer a _, .integer b _ => some (.logical (a = b) config.logicalKind)
  | .ne, .integer a _, .integer b _ => some (.logical (a ≠ b) config.logicalKind)
  | .lt, .integer a _, .integer b _ => some (.logical (a < b) config.logicalKind)
  | .le, .integer a _, .integer b _ => some (.logical (a ≤ b) config.logicalKind)
  | .gt, .integer a _, .integer b _ => some (.logical (b < a) config.logicalKind)
  | .ge, .integer a _, .integer b _ => some (.logical (b ≤ a) config.logicalKind)
  | .and, .logical a ka, .logical b kb => some (.logical (a && b) (max ka kb))
  | .or, .logical a ka, .logical b kb => some (.logical (a || b) (max ka kb))
  | .eqv, .logical a ka, .logical b kb => some (.logical (a = b) (max ka kb))
  | .neqv, .logical a ka, .logical b kb => some (.logical (a ≠ b) (max ka kb))
  | .xor, .logical a ka, .logical b kb => some (.logical (a ^^ b) (max ka kb))
  | .concat, .character s k, .character t _ => some (.character (s ++ t) k)
  | operator, v, w => I.binary operator v w

/-- The extreme of integers that `choose` finds, with the largest of their kinds. -/
def extreme? (choose : List Int → Option Int) (vs : List (Value α)) : Option (Value α) := do
  let ns ← vs.mapM Value.integer?
  let n ← choose (ns.map Prod.fst)
  let k ← (ns.map Prod.snd).max?
  some (.integer n k)

/-- The value of an intrinsic function, where the number, the types and the keywords of its
arguments are those that it is defined for. -/
def Intrinsic.rule? (f : Intrinsic) (args : List (Option String × Value α)) :
    Option (Option (Value α)) :=
  match f, args.map Prod.snd with
  | kind, [v] => v.kind?.map fun k => some (.integer k config.integerKind)
  | len, [.character s _] => some (some (.integer s.length config.integerKind))
  | max, vs => (extreme? List.max? vs).map some
  | min, vs => (extreme? List.min? vs).map some
  | abs, [.integer n k] => some (some (.integer (if n < 0 then -n else n) k))
  | mod, [.integer a k, .integer p _] =>
    if ∀ arg ∈ args, arg.1 = none then some ((Integer.remainder? a p).map (.integer · k))
    else none
  | selectedIntKind, [.integer n _] =>
    some (some (.integer (Integer.bytesForRange n) config.integerKind))
  | _, _ => none

/-- The arguments, if all of them have values. -/
def definedArguments? (args : List (Option String × Option (Value α))) :
    Option (List (Option String × Value α)) :=
  args.mapM fun arg => arg.2.map (arg.1, ·)

/-- The value of a reference.  It is left to the interpretation unless the reference is to an
intrinsic function that has a value by `Intrinsic.rule?`. -/
def Interpretation.referenceValue (name : String) (symbol : Option SymbolId)
    (args : List (Option String × Option (Value α))) : Option (Value α) :=
  match symbol, Intrinsic.ofName? name, definedArguments? args with
  | none, some f, some vs => (f.rule? config vs).getD (I.reference name none args)
  | _, _, _ => I.reference name symbol args

/-! ## Expressions -/

namespace Expr

mutual

/-- The value of an expression. -/
def value : Expr → Option (Value α)
  | constant c => some (c.denoted I)
  | designator name symbol => I.designator name symbol
  | component base name => I.component base.value name
  | reference name symbol args => I.referenceValue config name symbol args.values
  | parentheses inner => inner.value
  | unary operator operand => operand.value.bind (operator.value I)
  | binary operator left right =>
    left.value.bind fun v => right.value.bind fun w => operator.value config I v w

/-- The values of arguments, with their keywords. -/
def Args.values : Args → List (Option String × Option (Value α))
  | .nil => []
  | .cons keyword value rest => (keyword, value.value) :: rest.values

end

end Expr

end

end FortranScope
