import FortranScope.Analysis
import FortranScope.Proofs.Expr.Folding

/-!
# Constant expressions are folded away

A phrase that consists of literals, names with values and intrinsic operators has a value if
every operation in it does.  As long as all integers on the way are in the range of values,
analysing the phrase and folding it gives that value as a constant.
-/

namespace FortranScope

/-! ## Integer arithmetic is complete -/

namespace Integer

variable {a b n : Int}

/-- A number that fits is its own value. -/
theorem fit_of_fits (h : Fits .value n) :
  fit n = .ok n
  := by
  rw [fit, if_pos h]

/-- An exact quotient that fits is what division gives. -/
theorem divide_of_quotient? (h : quotient? a b = some n) (hn : Fits .value n) :
  divide a b = .ok n
  := by
  rw [quotient?] at h
  split at h
  · contradiction
  · next hb =>
    obtain rfl := Option.some.inj h
    rw [divide, if_neg hb, fit_of_fits hn]

/-- A power of a base of at least two in absolute value is out of range as soon as the exponent
reaches the bits of a value. -/
theorem not_fits_pow {exponent : Nat} (ha : 1 < a.natAbs) (h : Width.value.bits ≤ exponent) :
  ¬ Fits .value (a ^ exponent)
  := by
  have hpow : 2 ^ Width.value.bits ≤ (a ^ exponent).natAbs := by
    rw [Int.natAbs_pow]
    calc 2 ^ Width.value.bits
      _ ≤ 2 ^ exponent := Nat.pow_le_pow_right (by decide) h
      _ ≤ a.natAbs ^ exponent := Nat.pow_le_pow_left ha exponent
  rw [Fits]
  simp only [Width.bits, Width.limit] at hpow ⊢
  omega

/-- A natural power that fits is computed, by either of the two ways. -/
theorem naturalPower_of_fits {exponent : Nat} (h : Fits .value (a ^ exponent)) :
  naturalPower a exponent = .ok (a ^ exponent)
  := by
  rw [naturalPower]
  split
  · next ha => rw [ha, zero_pow_eq]
  split
  · next ha => rw [ha, one_pow]
  split
  · next ha => rw [ha, signPower_eq]
  split
  · next hexponent => exact absurd h (not_fits_pow (by omega) hexponent)
  · apply fit_of_fits h

/-- The reciprocal of a power is computed for every base but zero. -/
theorem exists_reciprocalPower (exponent : Int) (ha : a ≠ 0) :
  ∃ m, reciprocalPower a exponent = .ok m
  := by
  rw [reciprocalPower, if_neg ha]
  split
  · exact ⟨_, rfl⟩
  split
  · exact ⟨_, rfl⟩
  · exact ⟨_, rfl⟩

/-- An exact power that fits is what exponentiation gives. -/
theorem power_of_power? {exponent : Int} (h : power? a exponent = some n) (hn : Fits .value n) :
  power a exponent = .ok n
  := by
  by_cases hexponent : 0 ≤ exponent
  · rw [power?, if_pos hexponent] at h
    obtain rfl := Option.some.inj h
    rw [power, if_neg (Int.not_lt.mpr hexponent), naturalPower_of_fits hn]
  · have ha : a ≠ 0 := by
      rintro rfl
      rw [power?, if_neg hexponent, if_pos rfl] at h
      contradiction
    -- what it gives is the power, and it gives something
    obtain ⟨m, hm⟩ := exists_reciprocalPower exponent ha
    have hpower : power a exponent = .ok m := by
      rw [power, if_pos (Int.not_le.mp hexponent), hm]
    obtain rfl := Option.some.inj (h.symm.trans (power?_of_power hpower))
    apply hpower

end Integer

/-! ## Operators give the values that fit -/

/-- Nothing has a value but what operators and literals give. -/
def Interpretation.silent : Interpretation Unit where
  real _ _ := ()
  designator _ _ := none
  component _ _ := none
  unary _ _ := none
  binary _ _ _ := none
  reference _ _ _ := none

/-- An integer that is a value is in the range of values. -/
def Value.Fits {α : Type} : Value α → Prop
  | integer value _ => Integer.Fits .value value
  | _ => True

instance {α : Type} (v : Value α) : Decidable v.Fits :=
  match v with
  | .integer value _ => inferInstanceAs (Decidable (Integer.Fits .value value))
  | .logical _ _ | .character _ _ | .real _ _ | .other _ => inferInstanceAs (Decidable True)

section

variable {config : Config} {v : Value Unit}

/-- If a prefix operator has a value that fits, it is applied with this value. -/
theorem Constant.applyUnary_of_value {operator : UnaryOperator} {c : Constant}
    (h : operator.value .silent (c.denoted .silent) = some v) (hv : v.Fits) :
  ∃ d, c.applyUnary operator = .value d ∧ d.denoted .silent = v
  := by
  cases operator with
  | plus =>
    cases c with
    | integer n k => exact ⟨_, rfl, Option.some.inj h⟩
    | _ => contradiction
  | negate =>
    cases c with
    | integer n k =>
      obtain rfl := Option.some.inj h
      use .integer (-n) k
      refine ⟨?_, rfl⟩
      rw [applyUnary, Integer.fit_of_fits hv]
      rfl
    | _ => contradiction
  | not =>
    cases c with
    | logical a k => exact ⟨_, rfl, Option.some.inj h⟩
    | _ => contradiction

/-- Arithmetic gives the integers in the range of values. -/
theorem BinaryOperator.arithmetic?_of_value {operator : BinaryOperator} {a ka b kb : Int}
    (hcompare : operator.compare? a b = none)
    (h : operator.value config .silent (.integer a ka) (.integer b kb) = some v) (hv : v.Fits) :
  ∃ n, operator.arithmetic? a b = some (.ok n) ∧ v = .integer n (max ka kb)
  := by
  cases operator
  case add | subtract | multiply =>
    obtain rfl := Option.some.inj h
    exact ⟨_, congrArg some (Integer.fit_of_fits hv), rfl⟩
  case divide =>
    obtain ⟨n, hn, rfl⟩ := Option.map_eq_some_iff.mp h
    exact ⟨n, congrArg some (Integer.divide_of_quotient? hn hv), rfl⟩
  case power =>
    obtain ⟨n, hn, rfl⟩ := Option.map_eq_some_iff.mp h
    exact ⟨n, congrArg some (Integer.power_of_power? hn hv), rfl⟩
  all_goals contradiction

/-- If an operator between integers has a value that fits, it is applied with this value. -/
theorem Constant.applyToIntegers_of_value {operator : BinaryOperator} {a ka b kb : Int}
    (h : operator.value config .silent (.integer a ka) (.integer b kb) = some v) (hv : v.Fits) :
  ∃ d, applyToIntegers config operator a ka b kb = .value d ∧ d.denoted .silent = v
  := by
  rw [applyToIntegers]
  cases hcompare : operator.compare? a b with
  | some value =>
    rw [BinaryOperator.value_of_compare? hcompare] at h
    exact ⟨_, rfl, Option.some.inj h⟩
  | none =>
    obtain ⟨n, hn, rfl⟩ := BinaryOperator.arithmetic?_of_value hcompare h hv
    rw [hn]
    exact ⟨_, rfl, rfl⟩

/-- If an operator between logicals has a value, it is applied with this value. -/
theorem Constant.applyToLogicals_of_value {operator : BinaryOperator} {a b : Bool} {ka kb : Int}
    (h : operator.value config .silent (.logical a ka) (.logical b kb) = some v) :
  ∃ d, applyToLogicals operator a ka b kb = .value d ∧ d.denoted .silent = v
  := by
  rw [applyToLogicals]
  cases hconnective : operator.connective? a b with
  | some value =>
    rw [BinaryOperator.value_of_connective? hconnective] at h
    exact ⟨_, rfl, Option.some.inj h⟩
  | none => cases operator <;> contradiction

/-- If an operator between constants has a value that fits, it is applied with this value. -/
theorem Constant.applyBinary_of_value {operator : BinaryOperator} {c d : Constant}
    (h : operator.value config .silent (c.denoted .silent) (d.denoted .silent) = some v)
    (hv : v.Fits) :
  ∃ r, c.applyBinary config operator d = .value r ∧ r.denoted .silent = v
  := by
  cases c with
  | integer a ka =>
    cases d with
    | integer b kb => apply applyToIntegers_of_value h hv
    | _ => cases operator <;> contradiction
  | logical a ka =>
    cases d with
    | logical b kb => apply applyToLogicals_of_value h
    | _ => cases operator <;> contradiction
  | character s k =>
    cases d with
    | character t k' =>
      cases operator
      case concat => exact ⟨_, rfl, Option.some.inj h⟩
      all_goals contradiction
    | _ => cases operator <;> contradiction
  | real digits k => cases operator <;> cases d <;> contradiction

/-! ## Phrases -/

/-- The phrase consists of literals without a kind of their own, of names with values and of
intrinsic operators, and its value is `v`.  All integers on the way are in the range of
values. -/
inductive Phrase.Evaluates (config : Config) (named : Name → Value Unit → Prop) :
    Phrase → Value Unit → Prop
  | integer {n : Int} {span : Span} (h : Integer.Fits .value n) :
    Evaluates config named (.integer n none span) (.integer n config.integerKind)
  | character {text : String} {span : Span} :
    Evaluates config named (.character text span) (.character text config.characterKind)
  | logical {a : Bool} {span : Span} :
    Evaluates config named (.logical a span) (.logical a config.logicalKind)
  | designator {name : Name} {v : Value Unit} (h : named name v) :
    Evaluates config named (.designator name) v
  | parentheses {inner : Phrase} {span : Span} {v : Value Unit}
    (h : Evaluates config named inner v) : Evaluates config named (.parentheses inner span) v
  | unary {operator : UnaryOperator} {operand : Phrase} {span : Span} {v w : Value Unit}
    (h : Evaluates config named operand v) (hw : operator.value .silent v = some w)
    (hfits : w.Fits) : Evaluates config named (.unary (.intrinsic operator) operand span) w
  | binary {operator : BinaryOperator} {left right : Phrase} {u v w : Value Unit}
    (hleft : Evaluates config named left u) (hright : Evaluates config named right v)
    (hw : operator.value config .silent u v = some w) (hfits : w.Fits) :
    Evaluates config named (.binary (.intrinsic operator) left right) w

/-- If the names with values are those of constants with these values, the phrase is folded to a
constant. -/
theorem Phrase.Evaluates.exists_fold {c : Context} {s : ScopeId} {p : Phrase}
    {named : Name → Value Unit → Prop} (h : p.Evaluates c.config named v)
    (hnamed : ∀ name v, named name v → ∃ y d, c.tree.denoted? s name.text = some y
      ∧ (c.tree.symbol y).namedConstant? = some d ∧ d.denoted .silent = v) :
  ∃ e d, (c.analysis s p).result = some e ∧ (e.fold c.config).1 = .constant d
    ∧ d.denoted .silent = v
  := by
  induction h with
  | integer | character | logical => exact ⟨_, _, rfl, rfl, rfl⟩
  | @designator name v h =>
    obtain ⟨y, d, hy, hd, hv⟩ := hnamed name v h
    refine ⟨.constant d, d, ?_, rfl, hv⟩
    rw [Context.analysis, hy]
    change some (c.tree.designated name.text y) = _
    rw [Tree.designated, hd]
  | parentheses _ ih =>
    obtain ⟨e, d, he, hfold, hv⟩ := ih
    refine ⟨.parentheses e, d, ?_, ?_, hv⟩
    · rw [Context.analysis, Analysis.map, he]
      rfl
    · rw [Expr.fold, hfold]
      rfl
  | @unary operator _ _ _ _ _ hw hfits ih =>
    obtain ⟨e, d, he, hfold, rfl⟩ := ih
    obtain ⟨r, hr, hv⟩ := Constant.applyUnary_of_value hw hfits
    refine ⟨.unary operator e, r, ?_, ?_, hv⟩
    · rw [Context.analysis, Analysis.map, he]
      rfl
    · rw [Expr.fold, hfold]
      change (Expr.settle _ _ (d.applyUnary operator)).1 = _
      rw [hr]
      rfl
  | @binary operator _ _ _ _ _ _ _ hw hfits ihleft ihright =>
    obtain ⟨e, d, he, hfold, rfl⟩ := ihleft
    obtain ⟨e', d', he', hfold', rfl⟩ := ihright
    obtain ⟨r, hr, hv⟩ := Constant.applyBinary_of_value hw hfits
    refine ⟨.binary operator e e', r, ?_, ?_, hv⟩
    · rw [Context.analysis, Analysis.join, he, he']
      rfl
    · rw [Expr.fold, hfold, hfold']
      change (Expr.settle _ _ (d.applyBinary c.config operator d')).1 = _
      rw [hr]
      rfl

end

end FortranScope
