import FortranScope.Config
import FortranScope.Constant
import FortranScope.Integer.Arithmetic
import FortranScope.Operator

/-!
# Operations on constants

The value of an intrinsic operator or function whose operands are constants.  An operation
is `Evaluation.stuck` where no rule applies to operands of these types, and
`Evaluation.failed` where a rule applies but gives no value.
-/

namespace FortranScope

/-- The outcome of an operation on constants. -/
inductive Evaluation where
  | value (constant : Constant)
  | stuck
  | failed (cause : Cause)
deriving DecidableEq, Repr

namespace Evaluation

/-- The outcome of an operation on integers, as a constant of the given kind. -/
def ofInteger (kind : Int) : Except Cause Int → Evaluation
  | .ok n => .value (.integer n kind)
  | .error cause => .failed cause

end Evaluation

/-! ## Operators -/

/-- Whether the relational operator holds between `a` and `b`; absent for other
operators. -/
def BinaryOperator.compare? (operator : BinaryOperator) (a b : Int) : Option Bool :=
  match operator with
  | .eq => some (a = b)
  | .ne => some (a ≠ b)
  | .lt => some (a < b)
  | .le => some (a ≤ b)
  | .gt => some (a > b)
  | .ge => some (a ≥ b)
  | _ => none

/-- The value of the arithmetic operator at `a` and `b`; absent for other operators. -/
def BinaryOperator.arithmetic? (operator : BinaryOperator) (a b : Int) :
    Option (Except Cause Int) :=
  match operator with
  | .add => some (Integer.fit (a + b))
  | .subtract => some (Integer.fit (a - b))
  | .multiply => some (Integer.fit (a * b))
  | .divide => some (Integer.divide a b)
  | .power => some (Integer.power a b)
  | _ => none

/-- The value of the logical operator at `a` and `b`; absent for other operators. -/
def BinaryOperator.connective? (operator : BinaryOperator) (a b : Bool) : Option Bool :=
  match operator with
  | .and => some (a && b)
  | .or => some (a || b)
  | .eqv => some (a == b)
  | .neqv => some (a != b)
  | .xor => some (a != b)
  | _ => none

namespace Constant

/-- The operator at the constant. -/
def applyUnary (operator : UnaryOperator) (c : Constant) : Evaluation :=
  match operator, c with
  | .plus, integer value kind => .value (integer value kind)
  | .negate, integer value kind => .ofInteger kind (Integer.fit (-value))
  | .not, logical value kind => .value (logical (!value) kind)
  | _, _ => .stuck

/-- The operator at two integers.  A comparison has the default logical kind, any other result
the larger of the two kinds. -/
def applyToIntegers (config : Config) (operator : BinaryOperator) (a ka b kb : Int) :
    Evaluation :=
  match operator.compare? a b with
  | some value => .value (logical value config.logicalKind)
  | none =>
    match operator.arithmetic? a b with
    | some result => .ofInteger (max ka kb) result
    | none => .stuck

/-- The operator at two logical values. -/
def applyToLogicals (operator : BinaryOperator) (a : Bool) (ka : Int) (b : Bool) (kb : Int) :
    Evaluation :=
  match operator.connective? a b with
  | some value => .value (logical value (max ka kb))
  | none => .stuck

/-- The operator at two constants.  The concatenation of two texts has the kind of the first
one. -/
def applyBinary (config : Config) (operator : BinaryOperator) (c d : Constant) : Evaluation :=
  match c, d with
  | integer a ka, integer b kb => applyToIntegers config operator a ka b kb
  | logical a ka, logical b kb => applyToLogicals operator a ka b kb
  | character a ka, character b _ =>
    if operator = .concat then .value (character (a ++ b) ka) else .stuck
  | _, _ => .stuck

end Constant

/-! ## Functions -/

/-- The intrinsic functions of specification expressions. -/
inductive Intrinsic where
  | kind
  | len
  | size
  | max
  | min
  | abs
  | mod
  | selectedIntKind
  | int
  | huge
deriving DecidableEq, Repr

namespace Intrinsic

/-- Every intrinsic function. -/
def all : List Intrinsic :=
  [kind, len, size, max, min, abs, mod, selectedIntKind, int, huge]

/-- The name of a function. -/
def name : Intrinsic → String
  | kind => "kind"
  | len => "len"
  | size => "size"
  | max => "max"
  | min => "min"
  | abs => "abs"
  | mod => "mod"
  | selectedIntKind => "selected_int_kind"
  | int => "int"
  | huge => "huge"

/-- The function with the given name, in small letters. -/
def ofName? (name : String) : Option Intrinsic := all.find? fun f => f.name = name

/-- The extreme of some integers under `choose`, which gives one of two, with the largest of
their kinds; stuck on no arguments and on arguments of other types. -/
def applyExtreme (choose : Int → Int → Int) (args : List Constant) : Evaluation :=
  match args.mapM Constant.integer?, args.map Constant.kind with
  | some (n :: ns), k :: ks =>
    .value (.integer (ns.foldl choose n) (ks.foldl Max.max k))
  | _, _ => .stuck

/-- The function at constants, each with the keyword it was given by.  The arguments of `mod`
count by position only. -/
def apply (config : Config) (f : Intrinsic) (args : List (Option String × Constant)) :
    Evaluation :=
  match f, args.map Prod.snd with
  | kind, [c] => .value (.integer c.kind config.integerKind)
  | len, [.character s _] => .value (.integer s.length config.integerKind)
  | max, constants => applyExtreme Max.max constants
  | min, constants => applyExtreme Min.min constants
  | abs, [.integer n k] => .ofInteger k (Integer.fit n.natAbs)
  | mod, [.integer a k, .integer p _] =>
    if args.all fun arg => arg.1.isNone then .ofInteger k (Integer.remainder a p)
    else .stuck
  | selectedIntKind, [.integer n _] =>
    .value (.integer (Integer.kindForRange n) config.integerKind)
  | _, _ => .stuck

end Intrinsic

end FortranScope
