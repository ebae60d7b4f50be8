import FortranScope.Proofs.Expr.Folding
import FortranScope.Proofs.Expr.Reading

/-!
# Expressions that are read back

The text of an expression shows neither the kinds of its constants nor the parentheses that it
does without, and it may show more parentheses than the expression has.  `Expr.renew` is the
expression with the kinds and parentheses that its text is read with.  It has the same text, and
its operations have values where those of the expression have, as this depends on no kind.
-/

namespace FortranScope

/-! ## Operations that have values -/

/-- The operation has a value. -/
def Evaluation.IsValue (outcome : Evaluation) : Prop := ∃ c, outcome = .value c

/-- The constant with the kind that it has where none is written. -/
def Constant.renew (config : Config) : Constant → Constant
  | integer value _ => integer value config.integerKind
  | real digits _ => real digits (config.kindOfReal digits)
  | logical value _ => logical value config.logicalKind
  | character value _ => character value config.characterKind

namespace Evaluation

@[simp]
theorem isValue_value (c : Constant) :
  (value c).IsValue
  := ⟨c, rfl⟩

/-- An operation without an outcome has no value. -/
@[simp]
theorem not_isValue_stuck :
  ¬ stuck.IsValue
  := by
  rintro ⟨c, hc⟩
  cases hc

/-- An integer outcome has a value unless it failed. -/
@[simp]
theorem isValue_ofInteger {kind : Int} {outcome : Except Cause Int} :
  (ofInteger kind outcome).IsValue ↔ ∃ n, outcome = .ok n
  := by
  cases outcome with
  | ok n => simp [ofInteger]
  | error cause => simp [ofInteger, IsValue]

end Evaluation

section

variable {config : Config}

namespace Constant

/-- Renewing a constant keeps its text, which shows no kind. -/
@[simp]
theorem text_renew (c : Constant) :
  (c.renew config).text = c.text
  := by
  cases c with
  | logical value kind => cases value <;> rfl
  | _ => rfl

@[simp]
theorem integer?_renew (c : Constant) :
  (c.renew config).integer? = c.integer?
  := by
  cases c <;> rfl

/-- Whether a prefix operator has a value does not depend on the kind of its operand. -/
theorem isValue_applyUnary_renew {operator : UnaryOperator} {c : Constant} :
  ((c.renew config).applyUnary operator).IsValue ↔ (c.applyUnary operator).IsValue
  := by
  cases operator
  all_goals
    cases c
    all_goals simp [renew, applyUnary]

/-- Between integers comparisons always have a value, and arithmetic has one unless it fails. -/
theorem isValue_applyToIntegers {operator : BinaryOperator} {a ka b kb : Int} :
  (applyToIntegers config operator a ka b kb).IsValue
    ↔ (operator.compare? a b).isSome ∨ ∃ n, operator.arithmetic? a b = some (.ok n)
  := by
  rw [applyToIntegers]
  cases operator.compare? a b with
  | some value => simp
  | none => cases operator.arithmetic? a b <;> simp

/-- Between logicals the connectives have values. -/
theorem isValue_applyToLogicals {operator : BinaryOperator} {a b : Bool} {ka kb : Int} :
  (applyToLogicals operator a ka b kb).IsValue ↔ (operator.connective? a b).isSome
  := by
  rw [applyToLogicals]
  cases operator.connective? a b <;> simp

/-- Whether an operator has a value does not depend on the kinds of its operands. -/
theorem isValue_applyBinary_renew {operator : BinaryOperator} {c d : Constant} :
  ((c.renew config).applyBinary config operator (d.renew config)).IsValue
    ↔ (c.applyBinary config operator d).IsValue
  := by
  cases c
  all_goals
    cases d
    all_goals
      simp only [renew, applyBinary, isValue_applyToIntegers, isValue_applyToLogicals]
  split <;> simp

end Constant

namespace Intrinsic

/-- There is an extreme of one or more integers. -/
theorem isValue_applyExtreme {choose : Int → Int → Int} {cs : List Constant} :
  (applyExtreme choose cs).IsValue ↔ ∃ n ns, cs.mapM Constant.integer? = some (n :: ns)
  := by
  cases cs with
  | nil => simp [applyExtreme]
  | cons c cs =>
    rw [applyExtreme]
    split
    · next hns _ => simp [hns]
    · next hstuck =>
      simp only [Evaluation.not_isValue_stuck, false_iff]
      rintro ⟨n, ns, hns⟩
      exact hstuck n ns _ _ hns rfl

/-- Renewing constants keeps their integers. -/
theorem mapM_integer?_renew (cs : List Constant) :
  (cs.map (Constant.renew config)).mapM Constant.integer? = cs.mapM Constant.integer?
  := by
  induction cs with
  | nil => rfl
  | cons c cs ih => simp [ih]

/-- Whether a function has a value depends on the types and the number of its arguments. -/
theorem isValue_apply_renew {f : Intrinsic} {args : List (Option String × Constant)} :
  (f.apply config (args.map fun arg => (arg.1, arg.2.renew config))).IsValue
    ↔ (f.apply config args).IsValue
  := by
  have hconstants : (args.map fun arg => (arg.1, arg.2.renew config)).map Prod.snd
      = (args.map Prod.snd).map (Constant.renew config) := by
    rw [List.map_map, List.map_map]
    rfl
  have hpositional : ((args.map fun arg => (arg.1, arg.2.renew config)).all fun arg =>
      arg.1.isNone) = args.all fun arg => arg.1.isNone := by
    rw [List.all_map]
    rfl
  unfold apply
  rw [hconstants, hpositional]
  generalize args.all _ = positional
  cases f
  case max | min =>
    simp only [isValue_applyExtreme, mapM_integer?_renew]
  case size | int | huge => rfl
  all_goals
    match args.map Prod.snd with
    | [] => simp
    | [c] => cases c <;> simp [Constant.renew]
    | [c, d] =>
      cases c
      all_goals
        cases d
        all_goals cases positional <;> simp [Constant.renew]
    | c :: d :: b :: cs => simp

end Intrinsic

/-! ## Kinds and parentheses -/

namespace Expr

/-- `operand` in parentheses unless `level` is at least `least`, or it is a constant. -/
def operandExpr (least level : Nat) (operand : Expr) : Expr :=
  if least ≤ level then operand else operand.enclose

mutual

/-- The expression with the kinds that its constants have where none are written, and with the
parentheses that its text shows. -/
def renew (config : Config) : Expr → Expr
  | constant value => constant (value.renew config)
  | designator name symbol => designator name symbol
  | component base name =>
    component (operandExpr primaryLevel base.level (base.renew config)) name
  | reference name symbol args => reference name symbol (args.renew config)
  | parentheses inner => parentheses (inner.renew config)
  | unary operator operand =>
    unary operator (operandExpr (operator.level + 1) operand.level (operand.renew config))
  | binary operator left right =>
    binary operator (operandExpr operator.leftLevel left.level (left.renew config))
      (operandExpr operator.rightLevel right.level (right.renew config))

/-- The arguments with the kinds that their constants have where none are written, and with the
parentheses that their texts show. -/
def Args.renew (config : Config) : Args → Args
  | .nil => .nil
  | .cons keyword value rest => .cons keyword (value.renew config) (rest.renew config)

end

/-- Renewing an expression keeps its level, and so the parentheses that it needs. -/
theorem level_renew (e : Expr) :
  (e.renew config).level = e.level
  := by
  cases e with
  | constant value => cases value <;> rfl
  | _ => rfl

/-- Parentheses that are read are those that would be put anyway. -/
theorem operandText_operandExpr {least level : Nat} {operand : Expr}
    (hlevel : operand.level = level) (hleast : least ≤ primaryLevel) :
  operandText least (operandExpr least level operand).level (operandExpr least level operand).text
    = operandText least level operand.text
  := by
  subst hlevel
  rw [operandExpr]
  split
  · rfl
  · next hlow =>
    rw [operandText, operandText, if_neg hlow]
    cases operand with
    | constant c => apply if_neg hlow
    | _ => apply if_pos hleast

mutual

/-- Renewing an expression keeps its text. -/
theorem text_renew : (e : Expr) → (e.renew config).text = e.text
  | constant value => value.text_renew
  | designator _ _ => rfl
  | component base _ => by
    rw [renew, text, operandText_operandExpr base.level_renew (Nat.le_refl _), text_renew base,
      text]
  | reference _ _ args => by rw [renew, text, args.text_renew, text]
  | parentheses inner => by rw [renew, text, text_renew inner, text]
  | unary operator operand => by
    rw [renew, text, operandText_operandExpr operand.level_renew, text_renew operand, text]
    apply operator.level_lt_primaryLevel
  | binary operator left right => by
    rw [renew, text, operandText_operandExpr left.level_renew,
      operandText_operandExpr right.level_renew, text_renew left, text_renew right, text]
    · cases operator <;> decide
    · cases operator <;> decide

theorem Args.text_renew : (args : Args) → (args.renew config).text = args.text
  | .nil => rfl
  | .cons keyword value .nil => by
    rw [Args.renew, Args.renew, Args.text, Args.text, value.text_renew]
  | .cons keyword value (.cons keyword' value' rest) => by
    have hrest := (Args.cons keyword' value' rest).text_renew
    rw [Args.renew, Args.renew, Args.text_cons_cons, Args.text_cons_cons, value.text_renew, ← hrest,
      Args.renew]

end

/-- Only a constant loses its parentheses. -/
theorem enclose_of_constant?_eq_none {e : Expr} (h : e.constant? = none) :
  e.enclose = parentheses e
  := by
  cases e with
  | constant c => cases h
  | _ => rfl

/-- Renewing keeps what is a constant, and renews it. -/
theorem constant?_renew (e : Expr) :
  (e.renew config).constant? = e.constant?.map (Constant.renew config)
  := by
  cases e <;> rfl

/-- Only what is a constant is read back as one. -/
theorem constant?_operandExpr_renew {least level : Nat} {operand : Expr} :
  (operandExpr least level (operand.renew config)).constant?
    = operand.constant?.map (Constant.renew config)
  := by
  rw [operandExpr, ← constant?_renew]
  split
  · rfl
  · cases operand <;> rfl

theorem Args.constants?_renew (args : Args) :
  (args.renew config).constants?
    = args.constants?.map (List.map fun arg => (arg.1, arg.2.renew config))
  := by
  cases args with
  | nil => rfl
  | cons keyword value rest =>
    rw [renew, constants?, constants?, constant?_renew, rest.constants?_renew]
    cases value.constant? <;> cases rest.constants? <;> rfl

/-- Whether a prefix operator has a value depends neither on the kinds of constants nor on
parentheses. -/
theorem isValue_evaluateUnary_renew {operator : UnaryOperator} {operand : Expr}
    {least level : Nat} :
  (evaluateUnary operator (operandExpr least level (operand.renew config))).IsValue
    ↔ (evaluateUnary operator operand).IsValue
  := by
  rw [evaluateUnary, evaluateUnary, constant?_operandExpr_renew]
  cases operand.constant? with
  | none => rfl
  | some c => apply Constant.isValue_applyUnary_renew

/-- Whether an operator has a value depends neither on the kinds of constants nor on parentheses. -/
theorem isValue_evaluateBinary_renew {operator : BinaryOperator} {left right : Expr}
    {least least' level level' : Nat} :
  (evaluateBinary config operator (operandExpr least level (left.renew config))
      (operandExpr least' level' (right.renew config))).IsValue
    ↔ (evaluateBinary config operator left right).IsValue
  := by
  rw [evaluateBinary, evaluateBinary, constant?_operandExpr_renew, constant?_operandExpr_renew]
  cases left.constant? with
  | none => rfl
  | some c =>
    cases right.constant? with
    | none => rfl
    | some d => apply Constant.isValue_applyBinary_renew

/-- Whether a reference has a value does not depend on the kinds of constants. -/
theorem isValue_evaluateReference_renew {name : String} {symbol : Option SymbolId} {args : Args} :
  (evaluateReference config name symbol (args.renew config)).IsValue
    ↔ (evaluateReference config name symbol args).IsValue
  := by
  unfold evaluateReference
  rw [args.constants?_renew]
  cases symbol with
  | some x => rfl
  | none =>
    cases Intrinsic.ofName? name with
    | none => rfl
    | some f =>
      cases args.constants? with
      | none => rfl
      | some cs => apply Intrinsic.isValue_apply_renew

end Expr

end

end FortranScope
