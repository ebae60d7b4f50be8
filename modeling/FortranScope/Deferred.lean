import FortranScope.Defect
import FortranScope.Expr.Text
import FortranScope.Phrase

/-!
# Deferred expressions

A `Deferred` expression is kept as it is written until every declaration is known, and is
then either resolved or failed for good.  An `Extent` is a deferred expression, or a mark
that stands for a value given elsewhere; extents are the bounds of a `Dimension` and the
values of type parameters.
-/

namespace FortranScope

/-- An expression that is analysed later.  An `empty` one holds nothing and can only fail. -/
inductive Deferred where
  | empty
  | pending (phrase : Phrase)
  | failed
  | resolved (expr : Expr)
deriving DecidableEq

namespace Deferred

instance : Inhabited Deferred := ⟨empty⟩

/-- Whether the expression is still to be analysed. -/
def isUnresolved : Deferred → Bool
  | empty => true
  | pending _ => true
  | _ => false

/-- The result of the analysis, if it succeeded. -/
def expr? : Deferred → Option Expr
  | resolved expr => some expr
  | _ => none

/-- How the expression is shown. -/
def text : Deferred → String
  | empty => "EMPTY"
  | pending _ => "UNRESOLVED"
  | failed => "ERROR"
  | resolved expr => expr.text

end Deferred

/-- A bound of a dimension or the value of a type parameter: `*`, `:`, or an expression. -/
inductive Extent where
  | assumed
  | colon
  | explicit (value : Deferred)
deriving DecidableEq

namespace Extent

/-- The kind of the integers that bounds given as numbers are. -/
def subscriptKind : Int := 8

/-- The bound with the given number as its value. -/
def ofInt (n : Int) : Extent := explicit (.resolved (.constant (.integer n subscriptKind)))

/-- The expression of an extent that has one. -/
def explicit? : Extent → Option Deferred
  | explicit value => some value
  | _ => none

/-- How the extent is written. -/
def text : Extent → String
  | assumed => "*"
  | colon => ":"
  | explicit value => value.text

end Extent

/-- The bounds of one dimension of an array. -/
structure Dimension where
  lower : Extent
  upper : Extent
deriving DecidableEq

namespace Dimension

/-- A dimension `:` whose bounds are set when the array is allocated. -/
def deferred : Dimension := ⟨.colon, .colon⟩

/-- A dimension `lower:` of an argument, whose upper bound is set by the caller. -/
def assumedShape (lower : Extent) : Dimension := ⟨lower, .colon⟩

/-- A dimension `lower:*` whose upper bound is not known. -/
def assumedSize (lower : Extent) : Dimension := ⟨lower, .assumed⟩

/-- The dimension `..` of an argument of any rank. -/
def assumedRank : Dimension := ⟨.assumed, .assumed⟩

/-- The text of a bound beside the colon of a dimension. -/
def boundText : Extent → String
  | .colon => ""
  | bound => bound.text

/-- How the dimension is written.  A lower bound that is assumed needs an upper bound that is
assumed too. -/
def text (d : Dimension) : Except Defect String :=
  if d.lower = .assumed then
    if d.upper = .assumed then .ok ".." else .error .dimensionHalfAssumed
  else .ok (boundText d.lower ++ ":" ++ boundText d.upper)

end Dimension

end FortranScope
