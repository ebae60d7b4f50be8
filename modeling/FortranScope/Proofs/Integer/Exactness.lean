import FortranScope.Proofs.Expr.Evaluation

/-!
# Integer arithmetic is exact

The exact result of an operation on integers may not exist, and if it exists it may not be a
value.  `Integer.checked` makes the outcome of an operation from its exact result, and the
quotient and the power are what it makes from theirs.  The remainder is exact as well, but it is
given only where the quotient that it goes with is a value.
-/

namespace FortranScope.Integer

/-- The outcome of an operation with the given exact result, which may be missing. -/
def checked : Option Int → Except Cause Int
  | none => .error .divisionByZero
  | some n => fit n

/-- Why an operation with the given exact result gives no value. -/
def failureOf : Option Int → Cause
  | none => .divisionByZero
  | some _ => .integerOverflow

variable {a b : Int}

/-- A number out of range overflows. -/
theorem fit_of_not_fits {n : Int} (h : ¬ Fits .value n) :
  fit n = .error .integerOverflow
  := by
  rw [fit, if_neg h]

/-- An operation fails only if its exact result is missing or no value, and then it says which. -/
theorem checked_eq_error_iff {exact : Option Int} {cause : Cause} :
  checked exact = .error cause
    ↔ (∀ n, exact = some n → ¬ Fits .value n) ∧ cause = failureOf exact
  := by
  cases exact with
  | none => simp [checked, failureOf, eq_comm]
  | some n =>
    by_cases hn : Fits .value n
    · simp [checked, fit_of_fits hn, hn]
    · simp [checked, failureOf, fit_of_not_fits hn, hn, eq_comm]

/-! ## Quotients and powers -/

/-- Division gives the exact quotient, checked. -/
theorem divide_eq (a b : Int) :
  divide a b = checked (quotient? a b)
  := by
  rw [divide, quotient?]
  split <;> rfl

/-- The small bases, whose powers never leave the range of values, are no exception. -/
theorem naturalPower_eq (a : Int) (exponent : Nat) :
  naturalPower a exponent = fit (a ^ exponent)
  := by
  by_cases h : Fits .value (a ^ exponent)
  · rw [naturalPower_of_fits h, fit_of_fits h]
  · rw [fit_of_not_fits h, naturalPower]
    have hsmall : ¬ a.natAbs ≤ 1 := by
      intro ha
      apply h
      have hpow : (a ^ exponent).natAbs ≤ 1 := by
        rw [Int.natAbs_pow, ← one_pow exponent]
        apply Nat.pow_le_pow_left ha
      simp only [Fits, Width.limit]
      omega
    rw [if_neg (by omega), if_neg (by omega), if_neg (by omega)]
    split
    · rfl
    · apply fit_of_not_fits h

/-- A reciprocal is never out of range. -/
theorem fits_of_reciprocalPower {exponent n : Int} (h : reciprocalPower a exponent = .ok n) :
  Fits .value n
  := by
  rw [reciprocalPower, signPower] at h
  split at h
  · contradiction
  split at h
  · cases h
    decide
  split at h
  · cases h
    split <;> decide
  · cases h
    decide

/-- Exponentiation gives the exact power, checked. -/
theorem power_eq (a exponent : Int) :
  power a exponent = checked (power? a exponent)
  := by
  by_cases hexponent : 0 ≤ exponent
  · rw [power, if_neg (Int.not_lt.mpr hexponent), power?, if_pos hexponent, naturalPower_eq,
      checked]
  · by_cases ha : a = 0
    · rw [power, if_pos (Int.not_le.mp hexponent), power?, if_neg hexponent, if_pos ha,
        reciprocalPower, if_pos ha, checked]
    · obtain ⟨n, hn⟩ := exists_reciprocalPower exponent ha
      have hpower : power a exponent = .ok n := by
        rw [power, if_pos (Int.not_le.mp hexponent), hn]
      rw [hpower, power?_of_power hpower, checked, fit_of_fits (fits_of_reciprocalPower hn)]

/-- An exponent that is not negative gives the power, if it fits. -/
theorem power_of_nonneg {exponent : Int} (h : 0 ≤ exponent) (a : Int) :
  power a exponent = fit (a ^ exponent.toNat)
  := by
  rw [power_eq, power?, if_pos h, checked]

/-- The reciprocal of an integer, truncated, always fits. -/
theorem fits_one_tdiv (n : Int) :
  Fits .value (Int.tdiv 1 n)
  := by
  have hle := Int.natAbs_tdiv_le_natAbs 1 n
  simp only [Fits, Width.limit]
  omega

/-- A negative exponent gives the reciprocal of the power, truncated, unless the base is zero. -/
theorem power_of_neg {exponent : Int} (h : exponent < 0) (ha : a ≠ 0) :
  power a exponent = .ok (Int.tdiv 1 (a ^ exponent.natAbs))
  := by
  have habs : (-exponent).toNat = exponent.natAbs := by omega
  rw [power_eq, power?, if_neg (Int.not_le.mpr h), if_neg ha, checked,
    fit_of_fits (fits_one_tdiv _), habs]

/-! ## Remainders -/

/-- The quotient of two values is a value, but for one pair. -/
theorem fits_tdiv (ha : Fits .value a) (h : ¬ (a = -Width.value.limit ∧ b = -1)) :
  Fits .value (a.tdiv b)
  := by
  have hle : (a.tdiv b).natAbs ≤ a.natAbs := Int.natAbs_tdiv_le_natAbs a b
  rw [Fits] at ha ⊢
  by_cases hleast : a = -Width.value.limit
  · have hb : b = 0 ∨ b = 1 ∨ 2 ≤ b.natAbs := by omega
    rcases hb with rfl | rfl | hb
    · rw [Int.tdiv_zero]
      decide
    · rw [Int.tdiv_one]
      apply ha
    · have hhalf : (a.tdiv b).natAbs ≤ a.natAbs / 2 := by
        rw [Int.natAbs_tdiv]
        apply Nat.div_le_div_left hb (by decide)
      simp only [Width.limit] at ha ⊢
      omega
  · omega

/-- The remainder of two values is what the quotient leaves, but for one pair. -/
theorem remainder_of_ne_zero (ha : Fits .value a) (hb : b ≠ 0)
    (h : ¬ (a = -Width.value.limit ∧ b = -1)) :
  remainder a b = .ok (a - b * a.tdiv b)
  := by
  rw [remainder, divide, if_neg hb, fit_of_fits (fits_tdiv ha h), Except.map, Int.tmod_def]

/-- The quotient of this pair is no value, and so there is no remainder, though it would be `0`. -/
theorem remainder_least :
  remainder (-Width.value.limit) (-1) = .error .integerOverflow
  := by
  decide

end FortranScope.Integer
