import FortranScope.Diagnostic
import FortranScope.Integer

/-!
# Integer arithmetic

The operations on values give the exact integer, or the cause why there is none:
`Cause.divisionByZero` where the result is undefined, and `Cause.integerOverflow` where it
is not in the range of values.
-/

namespace FortranScope.Integer

/-- `n`, if it is a value. -/
def fit (n : Int) : Except Cause Int :=
  if Fits .value n then .ok n else .error .integerOverflow

/-- The quotient of `a` by `b`, truncated toward zero. -/
def divide (a b : Int) : Except Cause Int :=
  if b = 0 then .error .divisionByZero else fit (a.tdiv b)

/-- The remainder that goes with `divide a b`, which has to be a value. -/
def remainder (a b : Int) : Except Cause Int :=
  (divide a b).map fun _ => a.tmod b

/-- `1` for an even and `-1` for an odd `exponent`. -/
def signPower (exponent : Int) : Int := if exponent % 2 = 0 then 1 else -1

/-- `base` raised to `exponent`, which is not negative.  A base of at least two in absolute
value exceeds the range once the exponent reaches the bits of a value, so no larger power
is computed. -/
def naturalPower (base : Int) (exponent : Nat) : Except Cause Int :=
  if base = 0 then .ok (if exponent = 0 then 1 else 0)
  else if base = 1 then .ok 1
  else if base = -1 then .ok (signPower exponent)
  else if Width.value.bits ≤ exponent then .error .integerOverflow
  else fit (Int.pow base exponent)

/-- The reciprocal of `base` raised to the absolute value of `exponent`, which is negative,
truncated toward zero. -/
def reciprocalPower (base exponent : Int) : Except Cause Int :=
  if base = 0 then .error .divisionByZero
  else if base = 1 then .ok 1
  else if base = -1 then .ok (signPower exponent)
  else .ok 0

/-- `base` raised to `exponent`, truncated toward zero. -/
def power (base exponent : Int) : Except Cause Int :=
  if exponent < 0 then reciprocalPower base exponent else naturalPower base exponent.toNat

/-- The smallest kind of integers that holds every number with at most `range` digits, or
`-1` if none does. -/
def kindForRange (range : Int) : Int :=
  if range ≤ 2 then 1
  else if range ≤ 4 then 2
  else if range ≤ 9 then 4
  else if range ≤ 18 then 8
  else -1

end FortranScope.Integer
