import FortranScope.Proofs.Expr.Value
import FortranScope.Session
import Mathlib.Algebra.Ring.Int.Parity
import Mathlib.Tactic.Use

/-!
# Folding keeps values

What folding puts in place of an operation is the value of that operation.  An operation whose
value is no integer of the width, or that has none, stays, so that folding changes the value
of no expression and gives none to an expression without one.
-/

namespace FortranScope

/-! ## Integer arithmetic is exact -/

namespace Integer

variable {a b n m : Int}

/-- A number is given as it is, if at all. -/
theorem eq_of_fit (h : fit n = .ok m) :
  n = m
  := by
  rw [fit] at h
  split at h
  · apply Except.ok.inj h
  · cases h

/-- What division gives is the exact quotient. -/
theorem quotient?_of_divide (h : divide a b = .ok n) :
  quotient? a b = some n
  := by
  rw [divide] at h
  split at h
  · cases h
  · next hb => rw [quotient?, if_neg hb, eq_of_fit h]

/-- What the remainder gives is the exact remainder. -/
theorem remainder?_of_remainder (h : remainder a b = .ok n) :
  remainder? a b = some n
  := by
  rw [remainder, divide] at h
  split at h
  · cases h
  · next hb =>
    rw [remainder?, if_neg hb]
    cases hfit : fit (a.tdiv b) with
    | ok q =>
      rw [hfit] at h
      apply congrArg some (Except.ok.inj h)
    | error cause =>
      rw [hfit] at h
      cases h

/-- The sign of a power of `-1` is that power. -/
theorem signPower_eq (exponent : Nat) :
  signPower exponent = (-1) ^ exponent
  := by
  rcases Nat.even_or_odd exponent with heven | hodd
  · rw [signPower, heven.neg_one_pow, if_pos]
    obtain ⟨k, rfl⟩ := heven
    omega
  · rw [signPower, hodd.neg_one_pow, if_neg]
    obtain ⟨k, rfl⟩ := hodd
    omega

/-- Raising to a natural number gives the power, if it gives anything. -/
theorem pow_eq_of_naturalPower {exponent : Nat} (h : naturalPower a exponent = .ok n) :
  a ^ exponent = n
  := by
  rw [naturalPower] at h
  split at h
  · next ha =>
    rw [ha, zero_pow_eq, ← Except.ok.inj h]
  split at h
  · next ha => rw [ha, one_pow, ← Except.ok.inj h]
  split at h
  · next ha => rw [ha, ← signPower_eq, ← Except.ok.inj h]
  split at h
  · cases h
  · apply eq_of_fit h

/-- The reciprocal of a number of two or more in absolute value is truncated to zero. -/
theorem one_tdiv_eq_zero (h : 1 < n.natAbs) :
  Int.tdiv 1 n = 0
  := by
  rcases Int.le_total 0 n with hn | hn
  · apply Int.tdiv_eq_zero_of_lt (by decide)
    omega
  · have hneg : Int.tdiv 1 (-n) = 0 := Int.tdiv_eq_zero_of_lt (by decide) (by omega)
    rw [Int.tdiv_neg] at hneg
    omega

/-- Raising to a negative number gives the truncated reciprocal, if it gives anything. -/
theorem tdiv_pow_eq_of_reciprocalPower {exponent : Nat} (hexponent : exponent ≠ 0)
    (h : reciprocalPower a (-exponent) = .ok n) :
  a ≠ 0 ∧ Int.tdiv 1 (a ^ exponent) = n
  := by
  rw [reciprocalPower] at h
  split at h
  · cases h
  next hzero =>
  use hzero
  split at h
  · next hone =>
    rw [hone, one_pow, ← Except.ok.inj h]
    rfl
  next hone =>
  split at h
  · next hminus =>
    have hsign : signPower (-exponent) = signPower exponent := by
      simp only [signPower, Int.neg_emod_two]
    rw [hminus, ← Except.ok.inj h, hsign, signPower_eq]
    rcases neg_one_pow_eq_or Int exponent with hpow | hpow
    · rw [hpow]
      rfl
    · rw [hpow]
      rfl
  · next hminus =>
    -- all other bases exceed one in absolute value, and so do their powers
    rw [← Except.ok.inj h]
    apply one_tdiv_eq_zero
    rw [Int.natAbs_pow]
    apply Nat.one_lt_pow hexponent
    omega

/-- What exponentiation gives is the exact power. -/
theorem power?_of_power {exponent : Int} (h : power a exponent = .ok n) :
  power? a exponent = some n
  := by
  rw [power] at h
  split at h
  · next hexponent =>
    obtain ⟨k, hk⟩ := Int.eq_ofNat_of_zero_le (show 0 ≤ -exponent by omega)
    obtain rfl : exponent = -k := by omega
    obtain ⟨ha, hn⟩ := tdiv_pow_eq_of_reciprocalPower (by omega) h
    rw [power?, if_neg (Int.not_le.mpr hexponent), if_neg ha, Int.neg_neg, Int.toNat_natCast, hn]
  · next hexponent =>
    rw [power?, if_pos (Int.not_lt.mp hexponent), pow_eq_of_naturalPower h]

/-- The powers of ten within a bound are those up to the greatest one. -/
theorem ten_pow_le_iff {k l bound : Nat} (hl : 10 ^ l ≤ bound) (hbound : bound < 10 ^ (l + 1)) :
  10 ^ k ≤ bound ↔ k ≤ l
  := by
  constructor
  · intro hk
    apply Nat.le_of_lt_succ
    apply (Nat.pow_lt_pow_iff_right (by decide)).mp (Nat.lt_of_le_of_lt hk hbound)
  · intro hk
    apply Nat.le_trans (Nat.pow_le_pow_right (by decide) hk) hl

/-- The kinds in the table are the numbers of bytes that suffice. -/
theorem bytesForRange_eq (range : Int) :
  bytesForRange range = kindForRange range
  := by
  have hone : 10 ^ range.toNat ≤ 2 ^ (8 * 1 - 1) ↔ range ≤ 2 := by
    rw [ten_pow_le_iff (l := 2) (by decide) (by decide)]
    omega
  have htwo : 10 ^ range.toNat ≤ 2 ^ (8 * 2 - 1) ↔ range ≤ 4 := by
    rw [ten_pow_le_iff (l := 4) (by decide) (by decide)]
    omega
  have hfour : 10 ^ range.toNat ≤ 2 ^ (8 * 4 - 1) ↔ range ≤ 9 := by
    rw [ten_pow_le_iff (l := 9) (by decide) (by decide)]
    omega
  have height : 10 ^ range.toNat ≤ 2 ^ (8 * 8 - 1) ↔ range ≤ 18 := by
    rw [ten_pow_le_iff (l := 18) (by decide) (by decide)]
    omega
  simp only [bytesForRange, kindForRange, List.find?_cons, List.find?_nil, hone, htwo, hfour,
    height]
  by_cases h₁ : range ≤ 2
  · simp [h₁]
  by_cases h₂ : range ≤ 4
  · simp [h₁, h₂]
  by_cases h₄ : range ≤ 9
  · simp [h₁, h₂, h₄]
  by_cases h₈ : range ≤ 18
  · simp [h₁, h₂, h₄, h₈]
  · simp [h₁, h₂, h₄, h₈]

end Integer

/-! ## Operators and functions give the values that they have -/

section

variable {α : Type} {config : Config} {I : Interpretation α}

/-- The constant of an integer outcome is an integer of the given kind. -/
theorem Evaluation.exists_of_ofInteger {kind : Int} {outcome : Except Cause Int} {c : Constant}
    (h : ofInteger kind outcome = .value c) :
  ∃ n, outcome = .ok n ∧ c = .integer n kind
  := by
  cases outcome with
  | ok n => exact ⟨n, rfl, (Evaluation.value.inj h).symm⟩
  | error cause => cases h

/-- A prefix operator is applied with its value. -/
theorem Constant.value_of_applyUnary {operator : UnaryOperator} {c d : Constant}
    (h : c.applyUnary operator = .value d) :
  operator.value I (c.denoted I) = some (d.denoted I)
  := by
  unfold applyUnary at h
  split at h
  · rw [← Evaluation.value.inj h]
    rfl
  · obtain ⟨n, hn, rfl⟩ := Evaluation.exists_of_ofInteger h
    rw [← Integer.eq_of_fit hn]
    rfl
  · rw [← Evaluation.value.inj h]
    rfl
  · cases h

/-- A comparison of integers gives a logical value of the default kind. -/
theorem BinaryOperator.value_of_compare? {operator : BinaryOperator} {a ka b kb : Int}
    {value : Bool} (h : operator.compare? a b = some value) :
  operator.value config I (.integer a ka) (.integer b kb)
    = some (.logical value config.logicalKind)
  := by
  cases operator
  case eq | ne | lt | le | gt | ge =>
    rw [← Option.some.inj h]
    rfl
  all_goals cases h

/-- Arithmetic gives an integer of the larger kind. -/
theorem BinaryOperator.value_of_arithmetic? {operator : BinaryOperator} {a ka b kb n : Int}
    (h : operator.arithmetic? a b = some (.ok n)) :
  operator.value config I (.integer a ka) (.integer b kb) = some (.integer n (max ka kb))
  := by
  cases operator
  case add | subtract | multiply =>
    rw [← Integer.eq_of_fit (Option.some.inj h)]
    rfl
  case divide =>
    rw [value, Integer.quotient?_of_divide (Option.some.inj h)]
    rfl
  case power =>
    rw [value, Integer.power?_of_power (Option.some.inj h)]
    rfl
  all_goals cases h

/-- An operator between logicals is applied with its value, in the greater kind. -/
theorem BinaryOperator.value_of_connective? {operator : BinaryOperator} {a b value : Bool}
    {ka kb : Int} (h : operator.connective? a b = some value) :
  operator.value config I (.logical a ka) (.logical b kb) = some (.logical value (max ka kb))
  := by
  cases operator
  case and | or | eqv | neqv | xor =>
    rw [← Option.some.inj h]
    cases a <;> cases b <;> rfl
  all_goals cases h

/-- An operator between constants is applied with its value. -/
theorem Constant.value_of_applyBinary {operator : BinaryOperator} {c d r : Constant}
    (h : c.applyBinary config operator d = .value r) :
  operator.value config I (c.denoted I) (d.denoted I) = some (r.denoted I)
  := by
  unfold applyBinary at h
  split at h
  · unfold applyToIntegers at h
    split at h
    · next hcompare =>
      rw [← Evaluation.value.inj h]
      apply BinaryOperator.value_of_compare? hcompare
    · split at h
      · next harithmetic =>
        obtain ⟨n, rfl, rfl⟩ := Evaluation.exists_of_ofInteger h
        apply BinaryOperator.value_of_arithmetic? harithmetic
      · cases h
  · unfold applyToLogicals at h
    split at h
    · next hconnective =>
      rw [← Evaluation.value.inj h]
      apply BinaryOperator.value_of_connective? hconnective
    · cases h
  · split at h
    · next hconcat =>
      subst hconcat
      rw [← Evaluation.value.inj h]
      rfl
    · cases h
  · cases h

/-- The value of a constant has its kind. -/
theorem Constant.kind?_denoted (c : Constant) :
  (c.denoted I).kind? = some c.kind
  := by
  cases c <;> rfl

/-- Integer constants are integers with the kinds that they have. -/
theorem exists_mapM_integer? {cs : List Constant} {ns : List Int}
    (h : cs.mapM Constant.integer? = some ns) :
  ∃ pairs, (cs.map (Constant.denoted I)).mapM Value.integer? = some pairs
    ∧ pairs.map Prod.fst = ns ∧ pairs.map Prod.snd = cs.map Constant.kind
  := by
  induction cs generalizing ns with
  | nil =>
    obtain rfl := Option.some.inj h
    exact ⟨[], rfl, rfl, rfl⟩
  | cons c cs ih =>
    simp only [List.mapM_cons, Option.pure_def, Option.bind_eq_bind, Option.bind_eq_some_iff] at h
    obtain ⟨n, hn, ms, hms, hns⟩ := h
    obtain rfl := Option.some.inj hns
    obtain ⟨pairs, hpairs, hfst, hsnd⟩ := ih hms
    cases c with
    | integer value kind =>
      obtain rfl := Option.some.inj hn
      use (value, kind) :: pairs
      simp [Constant.denoted, Value.integer?, hpairs, hfst, hsnd, Constant.kind]
    | _ => cases hn

/-- The extreme of constants is that of their values, for whatever finds it. -/
theorem extreme?_of_applyExtreme {choose : Int → Int → Int} {find : List Int → Option Int}
    (hfind : ∀ n ns, find (n :: ns) = some (ns.foldl choose n)) {cs : List Constant}
    {c : Constant} (h : Intrinsic.applyExtreme choose cs = .value c) :
  extreme? find (cs.map (Constant.denoted I)) = some (c.denoted I)
  := by
  unfold Intrinsic.applyExtreme at h
  split at h
  · next n ns k ks hns hks =>
    obtain ⟨pairs, hpairs, hfst, hsnd⟩ := exists_mapM_integer? (I := I) hns
    rw [← Evaluation.value.inj h, extreme?, hpairs]
    simp only [Option.bind_eq_bind, Option.bind_some]
    rw [hfst, hsnd, hks, hfind, List.max?_cons']
    rfl
  · cases h

/-- Keeping the keywords keeps arguments positional. -/
theorem fst_eq_none_of_all_isNone {args : List (Option String × Constant)}
    (h : args.all fun arg => arg.1.isNone) :
  ∀ arg ∈ args.map fun arg => (arg.1, arg.2.denoted I), arg.1 = none
  := by
  intro arg harg
  obtain ⟨arg', harg', rfl⟩ := List.mem_map.mp harg
  apply Option.isNone_iff_eq_none.mp (List.all_eq_true.mp h arg' harg')

/-- What an intrinsic function gives at constants is its value. -/
theorem Intrinsic.rule?_of_apply {f : Intrinsic} {args : List (Option String × Constant)}
    {c : Constant} (h : f.apply config args = .value c) :
  f.rule? config (args.map fun arg => (arg.1, arg.2.denoted I)) = some (some (c.denoted I))
  := by
  have hvalues : (args.map fun arg => (arg.1, arg.2.denoted I)).map Prod.snd
      = (args.map Prod.snd).map (Constant.denoted I) := by
    rw [List.map_map, List.map_map]
    rfl
  unfold apply at h
  unfold rule?
  rw [hvalues]
  split at h
  · -- the kind of a constant
    next d hargs =>
    rw [hargs, ← Evaluation.value.inj h]
    simp only [List.map_cons, List.map_nil, Constant.kind?_denoted]
    rfl
  · -- the length of a character constant
    next s k hargs =>
    rw [hargs, ← Evaluation.value.inj h]
    rfl
  · -- the greatest argument
    have hmax := extreme?_of_applyExtreme (I := I) (fun _ _ => List.max?_cons') h
    simp only [hmax]
    rfl
  · -- the least argument
    have hmin := extreme?_of_applyExtreme (I := I) (fun _ _ => List.min?_cons') h
    simp only [hmin]
    rfl
  · -- the absolute value
    next n k hargs =>
    obtain ⟨m, hm, rfl⟩ := Evaluation.exists_of_ofInteger h
    have habs : (if n < 0 then -n else n) = m := by
      rw [← Integer.eq_of_fit hm]
      split <;> omega
    rw [hargs, ← habs]
    rfl
  · -- the remainder
    next a k p k' hargs =>
    split at h
    · next hpositional =>
      obtain ⟨n, hn, rfl⟩ := Evaluation.exists_of_ofInteger h
      rw [hargs]
      change (if _ then _ else _) = _
      rw [if_pos (fst_eq_none_of_all_isNone hpositional), Integer.remainder?_of_remainder hn]
      rfl
    · cases h
  · -- the bytes for a range of decimal digits
    next n k hargs =>
    rw [hargs, ← Evaluation.value.inj h, ← Integer.bytesForRange_eq]
    rfl
  · cases h

/-- What has a value by its rule is not left to the interpretation. -/
theorem Interpretation.referenceValue_eq {name : String} {f : Intrinsic}
    {args : List (Option String × Option (Value α))} {vs : List (Option String × Value α)}
    {v : Option (Value α)} (hname : Intrinsic.ofName? name = some f)
    (hargs : definedArguments? args = some vs) (hrule : f.rule? config vs = some v) :
  I.referenceValue config name none args = v
  := by
  unfold referenceValue
  rw [hname, hargs]
  simp only [hrule, Option.getD_some]

/-! ## Folding -/

namespace Expr

/-- The constant that an expression is said to be is the expression. -/
theorem eq_constant_of_constant? {e : Expr} {c : Constant} (h : e.constant? = some c) :
  e = constant c
  := by
  cases e with
  | constant value => rw [Option.some.inj h]
  | _ => cases h

/-- An operation may be replaced by its value. -/
theorem value_settle {e : Expr} {warnings : List Cause} {outcome : Evaluation}
    (h : ∀ c, outcome = .value c → e.value config I = some (c.denoted I)) :
  (settle e warnings outcome).1.value config I = e.value config I
  := by
  -- A rule that fails may still have a value, one out of range, so that `e` has to stay.
  cases outcome with
  | value c => exact (h c rfl).symm
  | stuck => rfl
  | failed cause => rfl

/-- Parentheses do not change a value, whether they stay or not. -/
theorem value_enclose (inner : Expr) :
  (enclose inner).value config I = inner.value config I
  := by
  unfold enclose
  split
  · rfl
  · rfl

/-- A prefix operator is replaced by a constant only if this is its value. -/
theorem value_of_evaluateUnary {operator : UnaryOperator} {operand : Expr} {c : Constant}
    (h : evaluateUnary operator operand = .value c) :
  (unary operator operand).value config I = some (c.denoted I)
  := by
  unfold evaluateUnary at h
  split at h
  · next hoperand =>
    rw [eq_constant_of_constant? hoperand]
    apply Constant.value_of_applyUnary h
  · cases h

/-- An operator is replaced by a constant only if this is its value. -/
theorem value_of_evaluateBinary {operator : BinaryOperator} {left right : Expr} {c : Constant}
    (h : evaluateBinary config operator left right = .value c) :
  (binary operator left right).value config I = some (c.denoted I)
  := by
  unfold evaluateBinary at h
  split at h
  · next hleft hright =>
    rw [eq_constant_of_constant? hleft, eq_constant_of_constant? hright]
    apply Constant.value_of_applyBinary h
  · cases h

/-- Arguments that are constants have the values of these. -/
theorem Args.values_of_constants? {args : Args} {cs : List (Option String × Constant)}
    (h : args.constants? = some cs) :
  args.values config I = cs.map fun arg => (arg.1, some (arg.2.denoted I))
  := by
  match args with
  | .nil =>
    obtain rfl := Option.some.inj h
    rfl
  | .cons keyword value rest =>
    unfold constants? at h
    split at h
    · next c ds hvalue hrest =>
      obtain rfl := Option.some.inj h
      rw [values, values_of_constants? hrest, eq_constant_of_constant? hvalue]
      rfl
    · cases h

/-- Arguments that all have values are defined together. -/
theorem definedArguments?_map_some (args : List (Option String × Value α)) :
  definedArguments? (args.map fun arg => (arg.1, some arg.2)) = some args
  := by
  induction args with
  | nil => rfl
  | cons arg args ih =>
    rw [definedArguments?] at ih ⊢
    simp [List.mapM_cons, ih]

/-- A reference is replaced by a constant only if this is its value. -/
theorem value_of_evaluateReference {name : String} {symbol : Option SymbolId} {args : Args}
    {c : Constant} (h : evaluateReference config name symbol args = .value c) :
  (reference name symbol args).value config I = some (c.denoted I)
  := by
  unfold evaluateReference at h
  split at h
  · next f constants hname hconstants =>
    have hdefined := definedArguments?_map_some
      (constants.map fun arg => (arg.1, arg.2.denoted I))
    rw [List.map_map] at hdefined
    rw [value, Args.values_of_constants? hconstants]
    apply Interpretation.referenceValue_eq hname hdefined (Intrinsic.rule?_of_apply h)
  · cases h

mutual

/-- Folding keeps the value of an expression, or that it has none. -/
theorem value_fold (e : Expr) :
  (e.fold config).1.value config I = e.value config I
  := by
  match e with
  | constant _ | designator _ _ => rfl
  | component base name => rw [fold, value, value, value_fold base]
  | reference name symbol args =>
    rw [fold, value_settle fun c hc => value_of_evaluateReference hc, value, value,
      args.values_fold]
  | parentheses inner => rw [fold, value_enclose, value_fold inner, value]
  | unary operator operand =>
    rw [fold, value_settle fun c hc => value_of_evaluateUnary hc, value, value,
      value_fold operand]
  | binary operator left right =>
    rw [fold, value_settle fun c hc => value_of_evaluateBinary hc, value, value,
      value_fold left, value_fold right]

theorem Args.values_fold (args : Args) :
  (args.fold config).1.values config I = args.values config I
  := by
  match args with
  | .nil => rfl
  | .cons keyword value rest =>
    rw [Args.fold, Args.values, Args.values, value.value_fold, rest.values_fold]

end

end Expr

/-- Folding in a context keeps the value of every expression, its kind included, under every
interpretation, and what had no value gets none. -/
theorem Session.fold_keeps_value (r : Session) (I : Interpretation α) (e : Expr) :
  (r.fold e).1.value r.context.config I = e.value r.context.config I
  := e.value_fold

end

end FortranScope
