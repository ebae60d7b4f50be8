import FortranScope.Proofs.Expr.Limits
import FortranScope.Proofs.Guarded.Computation

/-!
# Guarded folding

Nearly all arithmetic on constants is checked: it has an outcome even where there is no result or
none in range.  What is not checked is the parity of exponents.  A quotient by two is always in
range, so folding comes to an end, with what `Session.fold` gives.
-/

namespace FortranScope

/-- Reports a warning for each cause where the phrase analysed last begins. -/
def Session.warnAll (r : Session) (causes : List Cause) : Session :=
  { r with
    context := { r.context with
      log := r.context.log ++ causes.map fun cause => .warning cause r.position } }

@[simp]
theorem Session.warnAll_nil (r : Session) :
  r.warnAll [] = r
  := by
  rw [warnAll, List.map_nil, List.append_nil]

/-- Warnings are reported one after the other, all at the same place. -/
theorem Session.warnAll_append (r : Session) (causes causes' : List Cause) :
  r.warnAll (causes ++ causes') = (r.warnAll causes).warnAll causes'
  := by
  rw [warnAll, List.map_append, ← List.append_assoc]
  rfl

namespace Guarded

/-! ## Arithmetic -/

/-- The remainder of two integers.  There has to be a quotient that is a value. -/
def remainder (a b : Int) : Guarded Session Int := do
  check (b ≠ 0 ∧ ¬ (a = -Integer.Width.value.limit ∧ b = -1)) .arithmetic
  pure (a.tmod b)

/-- `1` for an even and `-1` for an odd exponent. -/
def signPower (odd : Bool) : Int := if odd then -1 else 1

/-- The number above the exponents that a power is computed for. -/
def exponentLimit : Int := 4294967296

/-- The power, with its parity found at the start. -/
def power (base exponent : Int) : Guarded Session (Except Cause Int) := do
  let rest ← remainder exponent 2
  let odd : Bool := rest ≠ 0
  if exponent < 0 then
    if base = 0 then pure (.error .divisionByZero)
    else if base = 1 then pure (.ok 1)
    else if base = -1 then pure (.ok (signPower odd))
    else pure (.ok 0)
  else if exponent < exponentLimit then pure (Integer.fit (base ^ exponent.toNat))
  else if base = 0 ∨ base = 1 then pure (.ok base)
  else if base = -1 then pure (.ok (signPower odd))
  else pure (.error .integerOverflow)

variable {r : Session}

/-- A divisor other than 0 and -1 always has a remainder: no quotient by it leaves the range. -/
theorem ends_remainder {a b : Int} (hzero : b ≠ 0) (hminus : b ≠ -1) :
  (remainder a b).Ends r (a.tmod b) r
  := by
  apply (ends_check ⟨hzero, fun h => hminus h.2⟩ _ r).bind
  apply ends_pure

/-- An exponent is even by either notion of remainder, or by none. -/
theorem signPower_eq (exponent : Int) :
  signPower (exponent.tmod 2 ≠ 0) = Integer.signPower exponent
  := by
  have heven : exponent.tmod 2 = 0 ↔ exponent % 2 = 0 := by
    rw [← Int.dvd_iff_tmod_eq_zero, Int.dvd_iff_emod_eq_zero]
  rw [signPower, Integer.signPower]
  by_cases h : exponent % 2 = 0
  · rw [decide_eq_false (not_not_intro (heven.mpr h)), if_neg Bool.false_ne_true, if_pos h]
  · rw [decide_eq_true (mt heven.mp h), if_pos rfl, if_neg h]

/-- Finding the parity divides by two, so nothing aborts the computation of a power. -/
theorem ends_power (base exponent : Int) :
  (power base exponent).Ends r (Integer.power base exponent) r
  := by
  apply (ends_remainder (by decide) (by decide)).bind
  simp only [signPower_eq]
  rw [Integer.power]
  by_cases hneg : exponent < 0
  · rw [if_pos hneg, if_pos hneg, Integer.reciprocalPower]
    split
    · apply ends_pure
    split
    · apply ends_pure
    split
    · apply ends_pure
    · apply ends_pure
  · rw [if_neg hneg, if_neg hneg]
    split
    · rw [Integer.naturalPower_eq]
      apply ends_pure
    next hlimit =>
    have hcast : (exponent.toNat : Int) = exponent := Int.toNat_of_nonneg (by omega)
    rw [exponentLimit] at hlimit
    rw [Integer.naturalPower, hcast]
    split
    · next hbase =>
      rcases hbase with rfl | rfl
      · rw [if_pos rfl, if_neg (by omega)]
        apply ends_pure
      · apply ends_pure
    · next hbase =>
      rw [if_neg (fun h => hbase (.inl h)), if_neg (fun h => hbase (.inr h))]
      split
      · apply ends_pure
      · rw [if_pos]
        · apply ends_pure
        · simp only [Integer.Width.bits]
          omega

/-- Raising to a power comes to an end with the exact result, however large the exponent is.  For an
exponent that is not negative this is the power, which overflows just if it is no value.  For a
negative one it is the reciprocal of the power, truncated toward zero, which only zero is
without. -/
theorem power_exact (base exponent : Int) (r : Session) :
  (power base exponent).Ends r (Integer.power base exponent) r
    ∧ Integer.power base exponent
      = if 0 ≤ exponent then
          if Integer.Fits .value (base ^ exponent.toNat) then .ok (base ^ exponent.toNat)
          else .error .integerOverflow
        else if base = 0 then .error .divisionByZero
        else .ok (Int.tdiv 1 (base ^ exponent.natAbs))
  := by
  use ends_power base exponent
  split
  · next hexponent => rw [Integer.power_of_nonneg hexponent, Integer.fit]
  · next hexponent =>
    have hneg := Int.not_le.mp hexponent
    split
    · next hbase => rw [Integer.power, if_pos hneg, Integer.reciprocalPower, if_pos hbase]
    · next hbase => apply Integer.power_of_neg hneg hbase

/-- The least value is a power, and one more factor takes it out of the range.  The exponents of the
other two reach beyond the range that powers are computed in. -/
example : Integer.power (-2) 63 = .ok (-9223372036854775808)
    ∧ Integer.power (-2) 64 = .error .integerOverflow
    ∧ Integer.power (-1) 9223372036854775807 = .ok (-1)
    ∧ Integer.power 2 9223372036854775807 = .error .integerOverflow
  := by
  decide +kernel

/-! ## Expressions -/

/-- Replaces an operation by its outcome. -/
def conclude (e : Expr) : Evaluation → Guarded Session Expr
  | .value c => pure (.constant c)
  | .stuck => pure e
  | .failed cause => do
    modify fun r => r.warn cause
    pure e

/-- The outcome of an operator at folded operands. -/
def evaluateBinary (operator : BinaryOperator) (left right : Expr) :
    Guarded Session Evaluation := do
  let r ← get
  match operator, left.constant?, right.constant? with
  | .power, some (.integer a ka), some (.integer b kb) =>
    let outcome ← power a b
    pure (.ofInteger (max ka kb) outcome)
  | _, _, _ => pure (Expr.evaluateBinary r.context.config operator left right)

mutual

/-- Folds an expression, operands before their operation and from left to right. -/
def fold : Expr → Guarded Session Expr
  | .constant value => pure (.constant value)
  | .designator name symbol => pure (.designator name symbol)
  | .component base name => do
    let base ← fold base
    pure (.component base name)
  | .reference name symbol args => do
    let args ← foldArgs args
    let r ← get
    conclude (.reference name symbol args)
      (Expr.evaluateReference r.context.config name symbol args)
  | .parentheses inner => do
    let inner ← fold inner
    pure inner.enclose
  | .unary operator operand => do
    let operand ← fold operand
    conclude (.unary operator operand) (Expr.evaluateUnary operator operand)
  | .binary operator left right => do
    let left ← fold left
    let right ← fold right
    let outcome ← evaluateBinary operator left right
    conclude (.binary operator left right) outcome

/-- Folds the arguments of a reference. -/
def foldArgs : Expr.Args → Guarded Session Expr.Args
  | .nil => pure .nil
  | .cons keyword value rest => do
    let value ← fold value
    let rest ← foldArgs rest
    pure (.cons keyword value rest)

end

/-! ## Folding comes to an end -/

/-- Concluding an operation appends its own cause, if it has one, to those of its operands. -/
theorem ends_conclude (e : Expr) (causes : List Cause) (outcome : Evaluation) :
  (conclude e outcome).Ends (r.warnAll causes) (e.settle causes outcome).1
    (r.warnAll (e.settle causes outcome).2)
  := by
  cases outcome with
  | value c => apply ends_pure
  | stuck => apply ends_pure
  | failed cause =>
    rw [Expr.settle, Session.warnAll_append]
    apply (ends_modify _ _).bind
    apply ends_pure

/-- An operator at folded operands comes to an end with the outcome that it has at once. -/
theorem ends_evaluateBinary (operator : BinaryOperator) (left right : Expr) :
  (evaluateBinary operator left right).Ends r
    (Expr.evaluateBinary r.context.config operator left right) r
  := by
  apply (ends_get r).bind
  split
  · next a ka b kb hleft hright =>
    rw [Expr.evaluateBinary, hleft, hright]
    apply (ends_power a b).bind
    apply ends_pure
  · apply ends_pure

mutual

/-- Folding comes to an end with the folded expression, and with one warning for every cause in the
order in which operations are folded. -/
theorem ends_fold_warnAll (r : Session) :
    (e : Expr) → (fold e).Ends r (e.fold r.context.config).1
      (r.warnAll (e.fold r.context.config).2)
  | .constant value => by
    rw [fold, Expr.fold, Session.warnAll_nil]
    apply ends_pure
  | .designator name symbol => by
    rw [fold, Expr.fold, Session.warnAll_nil]
    apply ends_pure
  | .component base name => by
    rw [fold, Expr.fold]
    apply (ends_fold_warnAll r base).bind
    apply ends_pure
  | .reference name symbol args => by
    rw [fold, Expr.fold]
    apply (ends_foldArgs_warnAll r args).bind
    apply (ends_get _).bind
    apply ends_conclude
  | .parentheses inner => by
    rw [fold, Expr.fold]
    apply (ends_fold_warnAll r inner).bind
    apply ends_pure
  | .unary operator operand => by
    rw [fold, Expr.fold]
    apply (ends_fold_warnAll r operand).bind
    apply ends_conclude
  | .binary operator left right => by
    have hright := ends_fold_warnAll (r.warnAll (left.fold r.context.config).2) right
    rw [← Session.warnAll_append] at hright
    rw [fold, Expr.fold]
    apply (ends_fold_warnAll r left).bind
    apply hright.bind
    apply (ends_evaluateBinary operator _ _).bind
    apply ends_conclude

/-- Folding the arguments of a reference comes to an end, and their warnings are those of the
arguments in order. -/
theorem ends_foldArgs_warnAll (r : Session) :
    (args : Expr.Args) → (foldArgs args).Ends r (args.fold r.context.config).1
      (r.warnAll (args.fold r.context.config).2)
  | .nil => by
    rw [foldArgs, Expr.Args.fold, Session.warnAll_nil]
    apply ends_pure
  | .cons keyword value rest => by
    have hrest := ends_foldArgs_warnAll (r.warnAll (value.fold r.context.config).2) rest
    rw [← Session.warnAll_append] at hrest
    rw [foldArgs, Expr.Args.fold]
    apply (ends_fold_warnAll r value).bind
    apply hrest.bind
    apply ends_pure

end

/-- Folding any expression comes to an end. -/
theorem ends_fold (r : Session) (e : Expr) :
  (fold e).Ends r (r.fold e).1 (r.fold e).2
  := ends_fold_warnAll r e

end Guarded

end FortranScope
