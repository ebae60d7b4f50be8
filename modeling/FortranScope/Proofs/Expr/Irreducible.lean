import FortranScope.Proofs.Expr.NormalForm
import FortranScope.Proofs.Integer.Exactness

/-!
# What folding leaves

No rule of folding applies to what it leaves.  An arithmetic operation on constants is left only
if its exact result does not exist or is no value, and every other operator is gone from constants
that it is for.  As long as no function is referred to, the warnings are those of the arithmetic
operations on constants that are left, each exactly once.
-/

namespace FortranScope

/-! ## Exact results -/

/-- The exact result of arithmetic on an integer. -/
def UnaryOperator.result? (operator : UnaryOperator) (n : Int) : Option (Option Int) :=
  match operator with
  | .plus => some (some n)
  | .negate => some (some (-n))
  | .not => none

/-- The exact result of arithmetic on two integers.  Quotients and reciprocals are truncated, and
there are none of zero. -/
def BinaryOperator.result? (operator : BinaryOperator) (a b : Int) : Option (Option Int) :=
  match operator with
  | .add => some (some (a + b))
  | .subtract => some (some (a - b))
  | .multiply => some (some (a * b))
  | .divide => some (Integer.quotient? a b)
  | .power => some (Integer.power? a b)
  | _ => none

/-- Whether the operator is for two logical values. -/
def BinaryOperator.isConnective : BinaryOperator → Bool
  | and => true
  | or => true
  | eqv => true
  | neqv => true
  | xor => true
  | _ => false

/-- Arithmetic is the exact result, where it is a value. -/
theorem BinaryOperator.arithmetic?_eq (operator : BinaryOperator) (a b : Int) :
  operator.arithmetic? a b = (operator.result? a b).map Integer.checked
  := by
  cases operator with
  | divide => rw [arithmetic?, result?, Integer.divide_eq, Option.map_some]
  | power => rw [arithmetic?, result?, Integer.power_eq, Option.map_some]
  | _ => rfl

namespace Evaluation

variable {kind : Int} {exact : Option Int}

/-- An exact result that gives no value is out of range. -/
theorem not_fits_of_not_isValue {n : Int}
    (h : ¬ (ofInteger kind (Integer.checked (some n))).IsValue) :
  ¬ Integer.Fits .value n
  := by
  intro hn
  apply h
  rw [Integer.checked, Integer.fit_of_fits hn]
  apply isValue_value

/-- An operation without a value says whether the exact result is missing or no value. -/
theorem cause?_ofInteger (h : ¬ (ofInteger kind (Integer.checked exact)).IsValue) :
  (ofInteger kind (Integer.checked exact)).cause? = some (Integer.failureOf exact)
  := by
  cases hexact : Integer.checked exact with
  | ok n =>
    rw [hexact] at h
    cases h ⟨_, rfl⟩
  | error cause =>
    obtain ⟨-, rfl⟩ := Integer.checked_eq_error_iff.mp hexact
    rfl

end Evaluation

section

variable {config : Config}

namespace Constant

/-- An operator with exact results on integers gives them as far as they are in range. -/
theorem applyToIntegers_of_result? {operator : BinaryOperator} {a ka b kb : Int}
    {exact : Option Int} (h : operator.result? a b = some exact) :
  applyToIntegers config operator a ka b kb = .ofInteger (max ka kb) (Integer.checked exact)
  := by
  have hcompare : operator.compare? a b = none := by
    cases operator <;> first | rfl | contradiction
  rw [applyToIntegers, hcompare, BinaryOperator.arithmetic?_eq, h]
  rfl

/-- Only arithmetic fails. -/
theorem cause?_applyToIntegers {operator : BinaryOperator} {a ka b kb : Int}
    (h : operator.result? a b = none) :
  (applyToIntegers config operator a ka b kb).cause? = none
  := by
  rw [applyToIntegers, BinaryOperator.arithmetic?_eq, h]
  cases operator.compare? a b <;> rfl

/-- Operations on logicals have a value or none, and never fail. -/
theorem cause?_applyToLogicals (operator : BinaryOperator) (a : Bool) (ka : Int) (b : Bool)
    (kb : Int) :
  (applyToLogicals operator a ka b kb).cause? = none
  := by
  rw [applyToLogicals]
  cases operator.connective? a b <;> rfl

/-- A prefix operator fails on nothing but an integer with an exact result. -/
theorem cause?_applyUnary {operator : UnaryOperator} {c : Constant}
    (h : c.integer?.bind operator.result? = none) :
  (c.applyUnary operator).cause? = none
  := by
  cases operator
  all_goals
    cases c
    all_goals first | rfl | contradiction

/-- An operator fails on nothing but integers with an exact result. -/
theorem cause?_applyBinary {operator : BinaryOperator} {c d : Constant}
    (h : (c.integer?.bind fun a => d.integer?.bind (operator.result? a)) = none) :
  (c.applyBinary config operator d).cause? = none
  := by
  cases c with
  | integer a ka =>
    cases d with
    | integer b kb => apply cause?_applyToIntegers h
    | _ => rfl
  | logical a ka =>
    cases d with
    | logical b kb => apply cause?_applyToLogicals
    | _ => rfl
  | character s k =>
    cases d with
    | character t k' => cases operator <;> rfl
    | _ => rfl
  | real digits k => cases d <;> rfl

end Constant

namespace Expr

/-- The exact result of an arithmetic operation on integer constants. -/
def result? : Expr → Option (Option Int)
  | unary operator operand => operand.integer?.bind operator.result?
  | binary operator left right =>
    left.integer?.bind fun a => right.integer?.bind (operator.result? a)
  | _ => none

/-- The outermost operation is none on constants that has a value, and no parentheses around a
constant. -/
structure Irreducible (e : Expr) : Prop where
  arithmetic (n : Int) : e.result? = some (some n) → ¬ Integer.Fits .value n
  comparison (operator : BinaryOperator) (a ka b kb : Int) :
    e = binary operator (constant (.integer a ka)) (constant (.integer b kb)) →
      operator.isRelational = false
  negation (a : Bool) (k : Int) : e ≠ unary .not (constant (.logical a k))
  connective (operator : BinaryOperator) (a b : Bool) (ka kb : Int) :
    e = binary operator (constant (.logical a ka)) (constant (.logical b kb)) →
      operator.isConnective = false
  concatenation (s t : String) (k k' : Int) :
    e ≠ binary .concat (constant (.character s k)) (constant (.character t k'))
  parentheses (c : Constant) : e ≠ parentheses (constant c)

/-- No function is referred to in the expression. -/
def ReferenceFree (e : Expr) : Prop :=
  ∀ name symbol args, reference name symbol args ∉ e.nodes

/-! ## Outcomes -/

/-- An expression with an integer value at hand is that integer constant. -/
theorem eq_constant_of_integer? {e : Expr} {n : Int} (h : e.integer? = some n) :
  ∃ k, e = constant (.integer n k)
  := by
  obtain ⟨c, hc, hn⟩ := Option.bind_eq_some_iff.mp h
  cases c with
  | integer m k =>
    obtain rfl := Option.some.inj hn
    exact ⟨k, eq_constant_of_constant? hc⟩
  | _ => contradiction

/-- Arithmetic without a value is tried on the exact result. -/
theorem outcome_of_result? {e : Expr} {exact : Option Int} (h : e.result? = some exact)
    (hvalue : ¬ (e.outcome config).IsValue) :
  ∃ kind, e.outcome config = .ofInteger kind (Integer.checked exact)
  := by
  cases e with
  | unary operator operand =>
    obtain ⟨n, hn, hexact⟩ := Option.bind_eq_some_iff.mp h
    obtain ⟨k, rfl⟩ := eq_constant_of_integer? hn
    cases operator with
    | plus => cases hvalue ⟨_, rfl⟩
    | negate =>
      obtain rfl := Option.some.inj hexact
      exact ⟨k, rfl⟩
    | not => contradiction
  | binary operator left right =>
    obtain ⟨a, ha, h⟩ := Option.bind_eq_some_iff.mp h
    obtain ⟨b, hb, hexact⟩ := Option.bind_eq_some_iff.mp h
    obtain ⟨ka, rfl⟩ := eq_constant_of_integer? ha
    obtain ⟨kb, rfl⟩ := eq_constant_of_integer? hb
    exact ⟨_, Constant.applyToIntegers_of_result? hexact⟩
  | _ => contradiction

/-- Only arithmetic and functions fail. -/
theorem cause?_outcome_of_result?_eq_none {e : Expr} (h : e.result? = none)
    (hreference : ∀ name symbol args, e ≠ reference name symbol args) :
  (e.outcome config).cause? = none
  := by
  cases e with
  | unary operator operand =>
    rw [outcome, evaluateUnary]
    rw [result?, integer?] at h
    cases hoperand : operand.constant? with
    | none => rfl
    | some c =>
      rw [hoperand] at h
      apply Constant.cause?_applyUnary h
  | binary operator left right =>
    rw [outcome, evaluateBinary]
    rw [result?, integer?, integer?] at h
    cases hleft : left.constant? with
    | none => rfl
    | some c =>
      cases hright : right.constant? with
      | none => rfl
      | some d =>
        rw [hleft, hright] at h
        apply Constant.cause?_applyBinary h
  | reference name symbol args => cases hreference name symbol args rfl
  | _ => rfl

/-! ## Folded operations -/

section

variable {e : Expr} (h : e.Folded config)

include h

/-- The outermost operation of a folded expression has no value. -/
theorem Folded.not_isValue_outcome :
  ¬ (e.outcome config).IsValue
  := by
  cases e with
  | reference name symbol args => exact h.2
  | unary operator operand => exact h.2
  | binary operator left right => exact h.2.2
  | _ => exact Evaluation.not_isValue_stuck

/-- The cause of an operation that is left is that of its arithmetic. -/
theorem Folded.cause?_outcome (hreference : ∀ name symbol args, e ≠ reference name symbol args) :
  (e.outcome config).cause? = e.result?.map Integer.failureOf
  := by
  cases hexact : e.result? with
  | none => rw [cause?_outcome_of_result?_eq_none hexact hreference, Option.map_none]
  | some exact =>
    have hvalue := h.not_isValue_outcome
    obtain ⟨kind, hkind⟩ := outcome_of_result? hexact hvalue
    rw [hkind] at hvalue
    rw [hkind, Evaluation.cause?_ofInteger hvalue, Option.map_some]

/-- A folded expression is irreducible: each rule would give its outermost operation a value. -/
theorem Folded.irreducible :
  e.Irreducible
  where
  arithmetic n hn := by
    have hvalue := h.not_isValue_outcome
    obtain ⟨kind, hkind⟩ := outcome_of_result? hn hvalue
    rw [hkind] at hvalue
    apply Evaluation.not_fits_of_not_isValue hvalue
  comparison operator a ka b kb := by
    rintro rfl
    cases operator <;> first | rfl | cases h.not_isValue_outcome ⟨_, rfl⟩
  negation a k := by
    rintro rfl
    cases h.not_isValue_outcome ⟨_, rfl⟩
  connective operator a b ka kb := by
    rintro rfl
    cases operator <;> first | rfl | cases h.not_isValue_outcome ⟨_, rfl⟩
  concatenation s t k k' := by
    rintro rfl
    cases h.not_isValue_outcome ⟨_, rfl⟩
  parentheses c := by
    rintro rfl
    cases h.2

/-- A node is the last one, which is folded, or one of those before it. -/
theorem Folded.of_mem_snoc {node : Expr} {nodes : List Expr} (hnode : node ∈ nodes ++ [e])
    (hnodes : node ∈ nodes → node.Folded config) :
  node.Folded config
  := by
  rcases List.mem_append.mp hnode with hnode | hnode
  · apply hnodes hnode
  · obtain rfl := List.mem_singleton.mp hnode
    apply h

end

mutual

/-- The parts of a folded expression are folded. -/
theorem Folded.of_mem_nodes {node : Expr} :
    (e : Expr) → e.Folded config → node ∈ e.nodes → node.Folded config
  | constant _, h, hnode => by
    rw [List.mem_singleton.mp hnode]
    apply h
  | designator _ _, h, hnode => by
    rw [List.mem_singleton.mp hnode]
    apply h
  | component base _, h, hnode => by
    apply Folded.of_mem_snoc h hnode
    apply Folded.of_mem_nodes base h
  | reference _ _ args, h, hnode => by
    apply Folded.of_mem_snoc h hnode
    apply Folded.of_mem_argNodes args h.1
  | parentheses inner, h, hnode => by
    apply Folded.of_mem_snoc h hnode
    apply Folded.of_mem_nodes inner h.1
  | unary _ operand, h, hnode => by
    apply Folded.of_mem_snoc h hnode
    apply Folded.of_mem_nodes operand h.1
  | binary _ left right, h, hnode => by
    apply Folded.of_mem_snoc h hnode
    intro hnode
    rcases List.mem_append.mp hnode with hnode | hnode
    · apply Folded.of_mem_nodes left h.1 hnode
    · apply Folded.of_mem_nodes right h.2.1 hnode

/-- In folded arguments every node is folded. -/
theorem Folded.of_mem_argNodes {node : Expr} :
    (args : Args) → args.Folded config → node ∈ args.nodes → node.Folded config
  | .cons _ value rest, h, hnode => by
    rcases List.mem_append.mp hnode with hnode | hnode
    · apply Folded.of_mem_nodes value h.1 hnode
    · apply Folded.of_mem_argNodes rest h.2 hnode

end

/-! ## Expressions without references -/

@[simp]
theorem referenceFree_component {base : Expr} {name : String} :
  (component base name).ReferenceFree ↔ base.ReferenceFree
  := by
  simp [ReferenceFree, nodes]

@[simp]
theorem referenceFree_parentheses {inner : Expr} :
  (parentheses inner).ReferenceFree ↔ inner.ReferenceFree
  := by
  simp [ReferenceFree, nodes]

@[simp]
theorem referenceFree_unary {operator : UnaryOperator} {operand : Expr} :
  (unary operator operand).ReferenceFree ↔ operand.ReferenceFree
  := by
  simp [ReferenceFree, nodes]

@[simp]
theorem referenceFree_binary {operator : BinaryOperator} {left right : Expr} :
  (binary operator left right).ReferenceFree ↔ left.ReferenceFree ∧ right.ReferenceFree
  := by
  simp [ReferenceFree, nodes, forall_and]

/-- A constant refers to nothing. -/
theorem referenceFree_constant (c : Constant) :
  (constant c).ReferenceFree
  := by
  simp [ReferenceFree, nodes]

/-- Replacing an operation by its value adds no reference. -/
theorem ReferenceFree.settle {e : Expr} {warnings : List Cause} {outcome : Evaluation}
    (h : e.ReferenceFree) :
  (e.settle warnings outcome).1.ReferenceFree
  := by
  cases outcome with
  | value c => apply referenceFree_constant
  | stuck => apply h
  | failed cause => apply h

/-- Taking parentheses away or leaving them adds no reference. -/
theorem ReferenceFree.enclose {inner : Expr} (h : inner.ReferenceFree) :
  inner.enclose.ReferenceFree
  := by
  cases inner with
  | constant c => apply h
  | _ => exact referenceFree_parentheses.mpr h

/-- Folding adds no reference. -/
theorem ReferenceFree.fold : (e : Expr) → e.ReferenceFree → (e.fold config).1.ReferenceFree
  | constant _, h => h
  | designator _ _, h => h
  | component base _, h =>
    referenceFree_component.mpr (ReferenceFree.fold base (referenceFree_component.mp h))
  | reference name symbol args, h => by
    cases h name symbol args (List.mem_append_right _ (List.mem_singleton_self _))
  | parentheses inner, h => by
    apply ReferenceFree.enclose
    apply ReferenceFree.fold inner (referenceFree_parentheses.mp h)
  | unary _ operand, h => by
    apply ReferenceFree.settle
    rw [referenceFree_unary] at h ⊢
    apply ReferenceFree.fold operand h
  | binary _ left right, h => by
    apply ReferenceFree.settle
    rw [referenceFree_binary] at h ⊢
    exact ⟨ReferenceFree.fold left h.1, ReferenceFree.fold right h.2⟩

/-- The causes of a folded expression without references are those of the arithmetic on constants
that is left. -/
theorem Folded.failures_eq {e : Expr} (h : e.Folded config) (hfree : e.ReferenceFree) :
  e.failures config = (e.nodes.filterMap result?).map Integer.failureOf
  := by
  rw [failures, causes, List.map_filterMap]
  apply List.filterMap_congr
  intro node hnode
  apply (h.of_mem_nodes e hnode).cause?_outcome
  rintro name symbol args rfl
  exact hfree name symbol args hnode

end Expr

end

namespace Session

/-- No rule of folding applies to any part of a folded expression.  If no function is referred to,
there is one warning for each arithmetic operation on constants that is left. -/
theorem irreducible_fold (r : Session) (e : Expr) :
  (∀ node ∈ (r.fold e).1.nodes, node.Irreducible)
    ∧ (e.ReferenceFree → (r.fold e).2 = { r with
        context := { r.context with
          log := r.context.log ++ ((r.fold e).1.nodes.filterMap Expr.result?).map fun exact =>
            .warning (Integer.failureOf exact) r.position } })
  := by
  have hfolded : (r.fold e).1.Folded r.context.config := e.folded_fold r.context.config
  constructor
  · intro node hnode
    apply (hfolded.of_mem_nodes _ hnode).irreducible
  · intro hfree
    have hcauses : (e.fold r.context.config).2
        = ((r.fold e).1.nodes.filterMap Expr.result?).map Integer.failureOf := by
      rw [← e.failures_fold]
      apply hfolded.failures_eq (hfree.fold e)
    rw [Session.fold, hcauses, List.map_map]
    rfl

/-- In `1 / 0 + (9223372036854775807 + 1)` the quotient and the inner sum are left, and the
warnings are for these two. -/
theorem irreducible_fold_quotientOfZero :
  let number (n : Int) := Expr.constant (.integer n 4)
  let quotient := Expr.binary .divide (number 1) (number 0)
  let sum := Expr.binary .add (number 9223372036854775807) (number 1)
  let r := initial .standard
  let e := Expr.binary .add quotient (.parentheses sum)
  (quotient ∈ (r.fold e).1.nodes ∧ quotient.Irreducible)
    ∧ e.ReferenceFree
    ∧ (r.fold e).2.context.log
      = [.warning .divisionByZero r.position, .warning .integerOverflow r.position]
  := by
  intro number quotient sum r e
  have hquotient : quotient ∈ (r.fold e).1.nodes := by decide +kernel
  have hfree : e.ReferenceFree := by
    simp [e, quotient, sum, number, Expr.referenceFree_constant]
  refine ⟨⟨hquotient, (irreducible_fold r e).1 quotient hquotient⟩, hfree, ?_⟩
  rw [(irreducible_fold r e).2 hfree]
  decide +kernel

end Session

end FortranScope
