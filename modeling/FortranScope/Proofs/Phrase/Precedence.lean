import FortranScope.Phrase.Power

/-!
# Precedence

A phrase is `Phrase.Graded` if its operators are grouped as their powers demand.  The powers
that count on the right side of a phrase are those of the operators that are open there,
whose last operand ends where the phrase ends: `Phrase.rightEdge`.  An operator that follows
the phrase takes all of it only if it exceeds none of them.
-/

namespace FortranScope

namespace Power

instance : LT Power := ⟨fun p q => p.rank < q.rank⟩

instance (p q : Power) : Decidable (p < q) :=
  inferInstanceAs (Decidable (p.rank < q.rank))

theorem not_le {p q : Power} :
  ¬ p ≤ q ↔ q < p
  := Nat.not_le

theorem lt_of_lt_of_le {p q r : Power} (hpq : p < q) (hqr : q ≤ r) :
  p < r
  := Nat.lt_of_lt_of_le hpq hqr

theorem le_trans {p q r : Power} (hpq : p ≤ q) (hqr : q ≤ r) :
  p ≤ r
  := Nat.le_trans hpq hqr

/-- Only the lowest power is at most the lowest. -/
theorem le_lowest_iff {p : Power} :
  p ≤ lowest ↔ p = lowest
  := by
  cases p <;> decide

end Power

/-! ## The powers of operators -/

namespace InfixOperator

variable (operator : InfixOperator)

/-- Every infix operator has more power than is needed to begin a phrase. -/
theorem lowest_lt_leftPower :
  Power.lowest < operator.leftPower
  := by
  cases operator with
  | intrinsic operator => cases operator <;> decide
  | defined word =>
    change Power.lowest < .definedBinary
    decide

/-- A component or a list of arguments has more power than any infix operator. -/
theorem leftPower_lt_suffix :
  operator.leftPower < .suffix
  := by
  cases operator with
  | intrinsic operator => cases operator <;> decide
  | defined word =>
    change Power.definedBinary < .suffix
    decide

/-- No operator gives its right operand more power than it has itself. -/
theorem rightPower_le_leftPower :
  operator.rightPower ≤ operator.leftPower
  := by
  cases operator with
  | intrinsic operator => cases operator <;> decide
  | defined word => apply Nat.le_refl

/-- A component or a list of arguments belongs to the right operand of an infix operator. -/
theorem rightPower_lt_suffix :
  operator.rightPower < .suffix
  := Nat.lt_of_le_of_lt operator.rightPower_le_leftPower operator.leftPower_lt_suffix

end InfixOperator

/-- A component or a list of arguments belongs to the operand of a prefix operator. -/
theorem PrefixOperator.rightPower_lt_suffix (operator : PrefixOperator) :
  operator.rightPower < .suffix
  := by
  cases operator with
  | intrinsic operator => cases operator <;> decide
  | defined word =>
    change Power.definedUnary < .suffix
    decide

/-! ## The powers of tokens -/

section

variable {t : Token}

/-- A token of an infix operator has the power of the operator. -/
theorem TokenKind.leftPower_eq_of_ofTokenKind? {kind : TokenKind} {operator : BinaryOperator}
    (h : BinaryOperator.ofTokenKind? kind = some operator) :
  kind.leftPower = operator.leftPower
  := by
  rw [BinaryOperator.ofTokenKind?_eq_some_iff] at h
  subst h
  cases operator <;> rfl

/-- The tokens that denote operators before an operand. -/
theorem PrefixOperator.kind_of_ofToken? {operator : PrefixOperator}
    (h : ofToken? t = some operator) :
  t.kind = .definedOperator ∨ t.kind = .plus ∨ t.kind = .dash ∨ t.kind = .not
  := by
  rw [ofToken?] at h
  split at h
  · next hkind =>
    left
    apply hkind
  · obtain ⟨o, ho, rfl⟩ := Option.map_eq_some_iff.mp h
    rw [UnaryOperator.ofTokenKind?_eq_some_iff] at ho
    cases o
    all_goals simp [ho, UnaryOperator.tokenKind]

/-- A token takes the operand before it with the power of the operator it denotes. -/
theorem InfixOperator.leftPower_of_ofToken? {operator : InfixOperator}
    (h : ofToken? t = some operator) :
  t.kind.leftPower = operator.leftPower
  := by
  rw [ofToken?] at h
  split at h
  · next hkind =>
    obtain rfl := Option.some.inj h
    rw [hkind]
    rfl
  · obtain ⟨o, ho, rfl⟩ := Option.map_eq_some_iff.mp h
    apply TokenKind.leftPower_eq_of_ofTokenKind? ho

end

/-! ## Graded phrases -/

namespace Phrase

/-- The right powers of the operators of a phrase whose last operand ends where the phrase
ends, outermost first. -/
def rightEdge : Phrase → List Power
  | unary operator operand _ => operator.rightPower :: operand.rightEdge
  | binary operator _ right => operator.rightPower :: right.rightEdge
  | _ => []

/-- Every operator that is open at the right end of `e` gives its operand up to an operator of
the given power. -/
def YieldsTo (power : Power) (e : Phrase) : Prop := ∀ q ∈ e.rightEdge, power ≤ q

/-- If `e` is an operation with two operands, its operator exceeds the given power. -/
def Exceeds (power : Power) : Phrase → Prop
  | binary operator _ _ => power < operator.leftPower
  | _ => True

mutual

/-- The operators of a phrase are grouped as their powers demand: an operation with two
operands that stands after an operator exceeds the right power of that operator, and what
stands before an operator or a component yields to it. -/
def Graded : Phrase → Prop
  | component base _ => base.Graded ∧ base.YieldsTo .suffix
  | reference _ args _ => args.Graded
  | parentheses inner _ => inner.Graded
  | unary operator operand _ => operand.Graded ∧ operand.Exceeds operator.rightPower
  | binary operator left right =>
    left.Graded ∧ left.YieldsTo operator.leftPower ∧ right.Graded
      ∧ right.Exceeds operator.rightPower
  | _ => True

/-- Every argument is graded. -/
def ArgList.Graded : ArgList → Prop
  | .nil => True
  | .cons _ value rest => value.Graded ∧ rest.Graded

end

instance (power : Power) (e : Phrase) : Decidable (e.YieldsTo power) :=
  inferInstanceAs (Decidable (∀ q ∈ e.rightEdge, power ≤ q))

instance (power : Power) : (e : Phrase) → Decidable (e.Exceeds power)
  | binary operator _ _ => inferInstanceAs (Decidable (power < operator.leftPower))
  | integer _ _ _ | real _ _ _ | character _ _ | logical _ _ | designator _ | component _ _
  | reference _ _ _ | parentheses _ _ | unary _ _ _ => inferInstanceAs (Decidable True)

mutual

instance decidableGraded : (e : Phrase) → Decidable e.Graded
  | component base _ =>
    have := decidableGraded base
    inferInstanceAs (Decidable (base.Graded ∧ base.YieldsTo .suffix))
  | reference _ args _ => ArgList.decidableGraded args
  | parentheses inner _ => decidableGraded inner
  | unary operator operand _ =>
    have := decidableGraded operand
    inferInstanceAs (Decidable (operand.Graded ∧ operand.Exceeds operator.rightPower))
  | binary operator left right =>
    have := decidableGraded left
    have := decidableGraded right
    inferInstanceAs (Decidable (left.Graded ∧ left.YieldsTo operator.leftPower ∧ right.Graded
      ∧ right.Exceeds operator.rightPower))
  | integer _ _ _ | real _ _ _ | character _ _ | logical _ _ | designator _ =>
    inferInstanceAs (Decidable True)

instance ArgList.decidableGraded : (args : ArgList) → Decidable args.Graded
  | .nil => inferInstanceAs (Decidable True)
  | .cons _ value rest =>
    have := Phrase.decidableGraded value
    have := ArgList.decidableGraded rest
    inferInstanceAs (Decidable (value.Graded ∧ rest.Graded))

end

-- A sign before a power is applied to the power.
example :
  ¬ (binary (.intrinsic .power) (unary (.intrinsic .negate) (designator default) default)
    (designator default)).Graded
  := by decide

/-- A phrase that yields to an operator after it is an operation that exceeds whatever that
operator exceeds. -/
theorem YieldsTo.exceeds {e : Phrase} {p q : Power} (h : e.YieldsTo q) (hpq : p < q) :
  e.Exceeds p
  := by
  cases e with
  | binary operator left right =>
    apply Power.lt_of_lt_of_le hpq
    apply Power.le_trans (h operator.rightPower List.mem_cons_self)
    apply InfixOperator.rightPower_le_leftPower
  | _ => trivial

/-- Every operator exceeds the lowest power. -/
theorem exceeds_lowest (e : Phrase) :
  e.Exceeds .lowest
  := by
  cases e with
  | binary operator left right => apply InfixOperator.lowest_lt_leftPower
  | _ => trivial

/-- A phrase with nothing open at its right end yields to every operator. -/
theorem yieldsTo_of_rightEdge_eq_nil {e : Phrase} (h : e.rightEdge = []) (power : Power) :
  e.YieldsTo power
  := by
  intro q hq
  rw [h] at hq
  cases hq

/-- A phrase with nothing open at its right end exceeds every power, as it is no operation. -/
theorem exceeds_of_rightEdge_eq_nil {e : Phrase} (h : e.rightEdge = []) (power : Power) :
  e.Exceeds power
  := by
  cases e with
  | binary operator left right => cases h
  | _ => trivial

/-- A prefix operation yields if its operator and its operand do. -/
theorem yieldsTo_unary {operator : PrefixOperator} {operand : Phrase} {span : Span}
    {power : Power} :
  (unary operator operand span).YieldsTo power
    ↔ power ≤ operator.rightPower ∧ operand.YieldsTo power
  := List.forall_mem_cons

/-- An infix operation yields if its operator and its right operand do. -/
theorem yieldsTo_binary {operator : InfixOperator} {left right : Phrase} {power : Power} :
  (binary operator left right).YieldsTo power
    ↔ power ≤ operator.rightPower ∧ right.YieldsTo power
  := List.forall_mem_cons

/-- Arguments are graded one by one. -/
theorem graded_ofList_append {args args' : List (Option Name × Phrase)} :
  (ArgList.ofList (args ++ args')).Graded
    ↔ (ArgList.ofList args).Graded ∧ (ArgList.ofList args').Graded
  := by
  induction args with
  | nil => simp [ArgList.ofList, ArgList.Graded]
  | cons arg rest ih => simp [ArgList.ofList, ArgList.Graded, ih, and_assoc]

end Phrase

end FortranScope
