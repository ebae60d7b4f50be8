import FortranScope.Constant
import FortranScope.Id
import FortranScope.Operator

/-!
# Expressions

An `Expr` is an analysed expression: names refer to symbols and literals are constants.
-/

namespace FortranScope

mutual

/-- An analysed expression.  A reference without a symbol is to an intrinsic function. -/
inductive Expr where
  | constant (value : Constant)
  | designator (name : String) (symbol : SymbolId)
  | component (base : Expr) (component : String)
  | reference (name : String) (symbol : Option SymbolId) (args : Expr.Args)
  | parentheses (inner : Expr)
  | unary (operator : UnaryOperator) (operand : Expr)
  | binary (operator : BinaryOperator) (left right : Expr)
deriving DecidableEq

/-- The arguments of a reference, each with the keyword before it, if there is one. -/
inductive Expr.Args where
  | nil
  | cons (keyword : Option String) (value : Expr) (rest : Expr.Args)
deriving DecidableEq

end

namespace Expr

/-- The constant that `e` is. -/
def constant? : Expr → Option Constant
  | constant value => some value
  | _ => none

/-- The value of the integer constant that `e` is. -/
def integer? (e : Expr) : Option Int := e.constant?.bind Constant.integer?

/-- The arguments as a list of pairs. -/
def Args.toList : Args → List (Option String × Expr)
  | nil => []
  | cons keyword value rest => (keyword, value) :: rest.toList

/-- The arguments with the given pairs. -/
def Args.ofList : List (Option String × Expr) → Args
  | [] => nil
  | arg :: rest => cons arg.1 arg.2 (ofList rest)

/-- Arguments built from a list of pairs have these pairs, in the same order. -/
@[simp]
theorem Args.toList_ofList (args : List (Option String × Expr)) :
  (ofList args).toList = args
  := by
  induction args with
  | nil => rfl
  | cons arg rest ih => rw [ofList, toList, ih]

/-- The arguments as constants, if all of them are. -/
def Args.constants? : Args → Option (List (Option String × Constant))
  | nil => some []
  | cons keyword value rest =>
    match value.constant?, rest.constants? with
    | some c, some cs => some ((keyword, c) :: cs)
    | _, _ => none

end Expr

end FortranScope
