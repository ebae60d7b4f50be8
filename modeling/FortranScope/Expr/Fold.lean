import FortranScope.Constant.Evaluation
import FortranScope.Expr

/-!
# Folding

`Expr.fold` replaces every operation on constants by its value.  An operation that gives no
value stays in the expression and its cause is reported; the causes come in the order in
which the operations are completed, operands before their operation and from left to
right.
-/

namespace FortranScope.Expr

/-- The operation `e`, after the causes `warnings` of its operands, replaced by its outcome. -/
def settle (e : Expr) (warnings : List Cause) : Evaluation → Expr × List Cause
  | .value c => (constant c, warnings)
  | .stuck => (e, warnings)
  | .failed cause => (e, warnings ++ [cause])

/-- `inner` in parentheses, which a constant does not need. -/
def enclose (inner : Expr) : Expr :=
  match inner with
  | constant c => constant c
  | e => parentheses e

/-- The outcome of the operator at a folded operand. -/
def evaluateUnary (operator : UnaryOperator) (operand : Expr) : Evaluation :=
  match operand.constant? with
  | some c => c.applyUnary operator
  | none => .stuck

/-- The outcome of the operator at folded operands. -/
def evaluateBinary (config : Config) (operator : BinaryOperator) (left right : Expr) :
    Evaluation :=
  match left.constant?, right.constant? with
  | some c, some d => c.applyBinary config operator d
  | _, _ => .stuck

/-- The outcome of a reference with folded arguments.  Only intrinsic functions, which have no
symbol, are evaluated. -/
def evaluateReference (config : Config) (name : String) (symbol : Option SymbolId)
    (args : Args) : Evaluation :=
  match symbol, Intrinsic.ofName? name, args.constants? with
  | none, some f, some constants => f.apply config constants
  | _, _, _ => .stuck

mutual

/-- `e` with its operations on constants evaluated, and the causes of those that give no
value. -/
def fold (config : Config) : Expr → Expr × List Cause
  | constant value => (constant value, [])
  | designator name symbol => (designator name symbol, [])
  | component base name =>
    let b := base.fold config
    (component b.1 name, b.2)
  | reference name symbol args =>
    let a := args.fold config
    settle (reference name symbol a.1) a.2 (evaluateReference config name symbol a.1)
  | parentheses inner =>
    let e := inner.fold config
    (enclose e.1, e.2)
  | unary operator operand =>
    let e := operand.fold config
    settle (unary operator e.1) e.2 (evaluateUnary operator e.1)
  | binary operator left right =>
    let l := left.fold config
    let r := right.fold config
    settle (binary operator l.1 r.1) (l.2 ++ r.2) (evaluateBinary config operator l.1 r.1)

/-- The arguments folded from left to right. -/
def Args.fold (config : Config) : Args → Args × List Cause
  | .nil => (.nil, [])
  | .cons keyword value rest =>
    let v := value.fold config
    let r := rest.fold config
    (.cons keyword v.1 r.1, v.2 ++ r.2)

end

end FortranScope.Expr
