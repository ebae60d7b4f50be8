import FortranScope.Proofs.Expr.Refolding

/-!
# Normal forms

A folded expression is in normal form: folding leaves it as it is.  The operations that gave no
value are still in it, so folding it again finds the same causes.  They are `Expr.failures`, which
depend on the folded expression alone: an operation that has a value has constants as operands,
and nothing failed in a constant.
-/

namespace FortranScope

/-- Why the operation gives no value, if it fails. -/
def Evaluation.cause? : Evaluation → Option Cause
  | value _ => none
  | stuck => none
  | failed cause => some cause

namespace Expr

/-! ## Nodes -/

mutual

/-- The parts of an expression and the expression itself, operands before their operation and from
left to right. -/
def nodes : Expr → List Expr
  | constant value => [constant value]
  | designator name symbol => [designator name symbol]
  | component base name => base.nodes ++ [component base name]
  | reference name symbol args => args.nodes ++ [reference name symbol args]
  | parentheses inner => inner.nodes ++ [parentheses inner]
  | unary operator operand => operand.nodes ++ [unary operator operand]
  | binary operator left right => left.nodes ++ right.nodes ++ [binary operator left right]

/-- The parts of the arguments from left to right. -/
def Args.nodes : Args → List Expr
  | .nil => []
  | .cons _ value rest => value.nodes ++ rest.nodes

end

/-- The outcome of the outermost operation. -/
def outcome (config : Config) : Expr → Evaluation
  | reference name symbol args => evaluateReference config name symbol args
  | unary operator operand => evaluateUnary operator operand
  | binary operator left right => evaluateBinary config operator left right
  | _ => .stuck

/-- Why operations in some expressions fail, in the order of the expressions. -/
def causes (config : Config) (es : List Expr) : List Cause :=
  es.filterMap fun e => (e.outcome config).cause?

/-- Why operations in the expression fail, in the order in which they are completed. -/
def failures (config : Config) (e : Expr) : List Cause := causes config e.nodes

/-- Why operations in the arguments fail. -/
def Args.failures (config : Config) (args : Args) : List Cause := causes config args.nodes

variable {config : Config}

theorem causes_append (es es' : List Expr) :
  causes config (es ++ es') = causes config es ++ causes config es'
  := List.filterMap_append

/-- A single expression has at most one cause, that of its outermost operation. -/
theorem causes_singleton (e : Expr) :
  causes config [e] = (e.outcome config).cause?.toList
  := by
  cases h : (e.outcome config).cause? <;> simp [causes, h]

/-! ## Operations that have values -/

/-- Only a constant operand gives a prefix operator a value. -/
theorem constant?_of_isValue_unary {operator : UnaryOperator} {operand : Expr}
    (h : (evaluateUnary operator operand).IsValue) :
  operand.constant?.isSome
  := by
  obtain ⟨c, hc⟩ := h
  unfold evaluateUnary at hc
  split at hc
  · next hoperand => rw [hoperand, Option.isSome_some]
  · contradiction

/-- Only two constant operands give an operator a value. -/
theorem constant?_of_isValue_binary {operator : BinaryOperator} {left right : Expr}
    (h : (evaluateBinary config operator left right).IsValue) :
  left.constant?.isSome ∧ right.constant?.isSome
  := by
  obtain ⟨c, hc⟩ := h
  unfold evaluateBinary at hc
  split at hc
  · next hleft hright => simp [hleft, hright]
  · contradiction

/-- Only constant arguments give a reference a value. -/
theorem constants?_of_isValue_reference {name : String} {symbol : Option SymbolId} {args : Args}
    (h : (evaluateReference config name symbol args).IsValue) :
  args.constants?.isSome
  := by
  obtain ⟨c, hc⟩ := h
  unfold evaluateReference at hc
  split at hc
  · next hargs => rw [hargs, Option.isSome_some]
  · contradiction

/-- Nothing fails in a constant. -/
theorem failures_of_constant? {e : Expr} (h : e.constant?.isSome) :
  e.failures config = []
  := by
  obtain ⟨c, hc⟩ := Option.isSome_iff_exists.mp h
  rw [eq_constant_of_constant? hc]
  rfl

/-- Nothing fails in constants. -/
theorem Args.failures_of_constants? {args : Args} (h : args.constants?.isSome) :
  args.failures config = []
  := by
  match args with
  | .nil => rfl
  | .cons keyword value rest =>
    unfold constants? at h
    split at h
    · next hvalue hrest =>
      have hfirst : value.failures config = [] := by
        apply failures_of_constant?
        rw [hvalue, Option.isSome_some]
      have hothers : rest.failures config = [] := by
        apply failures_of_constants?
        rw [hrest, Option.isSome_some]
      rw [failures, nodes, causes_append]
      exact List.append_eq_nil_iff.mpr ⟨hfirst, hothers⟩
    · contradiction

/-! ## Folding finds what fails -/

/-- What fails in `e` is what failed in its operands and then the operation itself, unless it has a
value.  In that case nothing failed in the operands. -/
theorem failures_settle {e : Expr} {warnings : List Cause} {outcome : Evaluation}
    (he : e.failures config = warnings ++ outcome.cause?.toList)
    (hvalue : outcome.IsValue → warnings = []) :
  (settle e warnings outcome).1.failures config = (settle e warnings outcome).2
  := by
  cases outcome with
  | value c =>
    rw [settle, hvalue ⟨c, rfl⟩]
    rfl
  | stuck => rw [settle, he, Evaluation.cause?, Option.toList_none, List.append_nil]
  | failed cause => rw [settle, he, Evaluation.cause?, Option.toList_some]

/-- Parentheses do not fail, and hide no failure. -/
theorem failures_enclose (inner : Expr) :
  inner.enclose.failures config = inner.failures config
  := by
  unfold enclose
  split
  · rfl
  · have hself : causes config [parentheses inner] = [] := rfl
    rw [failures, nodes, causes_append, hself, List.append_nil, failures]

mutual

/-- The causes that folding gives are those of what still fails in the folded expression. -/
theorem failures_fold : (e : Expr) → (e.fold config).1.failures config = (e.fold config).2
  | constant _ => rfl
  | designator _ _ => rfl
  | component base name => by
    have hbase := base.failures_fold
    have hself : causes config [component (base.fold config).1 name] = [] := rfl
    rw [failures] at hbase
    rw [fold, failures, nodes, causes_append, hself, List.append_nil, hbase]
  | reference name symbol args => by
    have hargs := args.failures_fold
    rw [fold]
    apply failures_settle
    · rw [failures, nodes, causes_append, causes_singleton, outcome, ← hargs, Args.failures]
    · intro hvalue
      rw [← hargs]
      apply Args.failures_of_constants? (constants?_of_isValue_reference hvalue)
  | parentheses inner => by rw [fold, failures_enclose, inner.failures_fold]
  | unary operator operand => by
    have hoperand := operand.failures_fold
    rw [fold]
    apply failures_settle
    · rw [failures, nodes, causes_append, causes_singleton, outcome, ← hoperand, failures]
    · intro hvalue
      rw [← hoperand]
      apply failures_of_constant? (constant?_of_isValue_unary hvalue)
  | binary operator left right => by
    have hleft := left.failures_fold
    have hright := right.failures_fold
    rw [fold]
    apply failures_settle
    · rw [failures, nodes, causes_append, causes_append, causes_singleton, outcome, ← hleft,
        ← hright, failures, failures]
    · intro hvalue
      obtain ⟨hl, hr⟩ := constant?_of_isValue_binary hvalue
      rw [← hleft, ← hright, failures_of_constant? hl, failures_of_constant? hr, List.append_nil]

theorem Args.failures_fold :
    (args : Args) → (args.fold config).1.failures config = (args.fold config).2
  | .nil => rfl
  | .cons keyword value rest => by
    have hvalue := value.failures_fold
    have hrest := rest.failures_fold
    rw [failures] at hvalue
    rw [Args.failures] at hrest
    rw [Args.fold, Args.failures, Args.nodes, causes_append, hvalue, hrest]

end

/-! ## Folded expressions stay -/

mutual

/-- Folding a folded expression leaves it as it is. -/
theorem fst_fold_of_folded : (e : Expr) → e.Folded config → (e.fold config).1 = e
  | constant _, _ => rfl
  | designator _ _, _ => rfl
  | component base name, h => by rw [fold, base.fst_fold_of_folded h]
  | reference name symbol args, h => by
    rw [fold, args.fst_fold_of_folded h.1, settle_of_not_isValue h.2]
  | parentheses inner, h => by
    rw [fold, inner.fst_fold_of_folded h.1, enclose_of_constant?_eq_none h.2]
  | unary operator operand, h => by
    rw [fold, operand.fst_fold_of_folded h.1, settle_of_not_isValue h.2]
  | binary operator left right, h => by
    rw [fold, left.fst_fold_of_folded h.1, right.fst_fold_of_folded h.2.1,
      settle_of_not_isValue h.2.2]

theorem Args.fst_fold_of_folded : (args : Args) → args.Folded config → (args.fold config).1 = args
  | .nil, _ => rfl
  | .cons keyword value rest, h => by
    rw [Args.fold, value.fst_fold_of_folded h.1, rest.fst_fold_of_folded h.2]

end

/-- Folding is idempotent, and the causes come again. -/
theorem fold_fst_fold (e : Expr) :
  (e.fold config).1.fold config = e.fold config
  := by
  have hfst : ((e.fold config).1.fold config).1 = (e.fold config).1 :=
    fst_fold_of_folded _ (e.folded_fold config)
  apply Prod.ext hfst
  rw [← failures_fold, hfst, failures_fold]

end Expr

namespace Session

/-- Folding reports warnings and changes nothing else, and folding again gives the same expression
and the same warnings once more. -/
theorem fold_fold (r : Session) (e : Expr) :
  ∃ warnings : Log, (∀ d ∈ warnings, d.severity = .warning)
    ∧ (r.fold e).2 = { r with context := { r.context with log := r.context.log ++ warnings } }
    ∧ (r.fold e).2.fold (r.fold e).1
      = ((r.fold e).1, { r with
          context := { r.context with log := r.context.log ++ warnings ++ warnings } })
  := by
  use (e.fold r.context.config).2.map fun cause => .warning cause r.position
  refine ⟨?_, rfl, ?_⟩
  · intro d hd
    obtain ⟨cause, -, rfl⟩ := List.mem_map.mp hd
    rfl
  · have hagain : (e.fold r.context.config).1.fold r.context.config = e.fold r.context.config :=
      e.fold_fst_fold
    simp only [fold, hagain]

end Session

end FortranScope
