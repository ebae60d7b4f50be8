import FortranScope.Proofs.Expr.Evaluation
import FortranScope.Proofs.Expr.Renewal
import FortranScope.Proofs.Expr.Vocabulary

/-!
# Folding again

In a folded expression no operation has a value.  So what it is written as is read, analysed and
folded to the expression again, but for kinds and parentheses: names denote what they denoted,
a negative constant comes back as a negation that is folded, and no other operation gets a value
that had none.
-/

namespace FortranScope

/-! ## Folded expressions -/

namespace Expr

variable {config : Config}

mutual

/-- No operation in the expression has a value, and no constant is in parentheses. -/
def Folded (config : Config) : Expr → Prop
  | constant _ => True
  | designator _ _ => True
  | component base _ => base.Folded config
  | reference name symbol args =>
    args.Folded config ∧ ¬ (evaluateReference config name symbol args).IsValue
  | parentheses inner => inner.Folded config ∧ inner.constant? = none
  | unary operator operand =>
    operand.Folded config ∧ ¬ (evaluateUnary operator operand).IsValue
  | binary operator left right =>
    left.Folded config ∧ right.Folded config
      ∧ ¬ (evaluateBinary config operator left right).IsValue

/-- No operation in the arguments has a value, and no constant is in parentheses. -/
def Args.Folded (config : Config) : Args → Prop
  | .nil => True
  | .cons _ value rest => value.Folded config ∧ rest.Folded config

end

/-- Without a value an expression is left as it is. -/
theorem settle_of_not_isValue {e : Expr} {warnings : List Cause} {outcome : Evaluation}
    (h : ¬ outcome.IsValue) :
  (settle e warnings outcome).1 = e
  := by
  cases outcome with
  | value c => cases h ⟨c, rfl⟩
  | stuck => rfl
  | failed cause => rfl

/-- An operation is folded once it was replaced by its value, or has none. -/
theorem folded_settle {e : Expr} {warnings : List Cause} {outcome : Evaluation}
    (h : ¬ outcome.IsValue → e.Folded config) :
  (settle e warnings outcome).1.Folded config
  := by
  by_cases houtcome : outcome.IsValue
  · obtain ⟨c, rfl⟩ := houtcome
    trivial
  · rw [settle_of_not_isValue houtcome]
    apply h houtcome

/-- Parentheses around a folded expression are folded, as they vanish around a constant. -/
theorem Folded.enclose {e : Expr} (h : e.Folded config) :
  e.enclose.Folded config
  := by
  cases e with
  | constant c => trivial
  | _ => exact ⟨h, rfl⟩

mutual

/-- What folding gives is folded. -/
theorem folded_fold (config : Config) : (e : Expr) → (e.fold config).1.Folded config
  | constant _ => trivial
  | designator _ _ => trivial
  | component base _ => folded_fold config base
  | reference _ _ args => folded_settle fun h => ⟨args.folded_fold config, h⟩
  | parentheses inner => (folded_fold config inner).enclose
  | unary _ operand => folded_settle fun h => ⟨folded_fold config operand, h⟩
  | binary _ left right =>
    folded_settle fun h => ⟨folded_fold config left, folded_fold config right, h⟩

theorem Args.folded_fold (config : Config) : (args : Args) → (args.fold config).1.Folded config
  | .nil => trivial
  | .cons _ value rest => ⟨value.folded_fold config, rest.folded_fold config⟩

end

end Expr

/-! ## Reading back and folding -/

namespace Context

variable {c : Context} {s : ScopeId}

/-- The phrase is analysed without a fault, and folding gives `e`. -/
def FoldsTo (c : Context) (s : ScopeId) (p : Phrase) (e : Expr) : Prop :=
  ∃ e', (c.analysis s p).result = some e' ∧ (e'.fold c.config).1 = e

/-- The arguments are analysed without a fault, and folding gives `args`. -/
def FoldsToArgs (c : Context) (s : ScopeId) (ps : Phrase.ArgList) (args : Expr.Args) : Prop :=
  ∃ args', (c.analysisOfArgs s ps).result = some args' ∧ (args'.fold c.config).1 = args

/-- A phrase in parentheses folds to the expression with parentheses, or to the constant alone. -/
theorem FoldsTo.parentheses {p : Phrase} {e : Expr} (h : c.FoldsTo s p e) (span : Span) :
  c.FoldsTo s (.parentheses p span) e.enclose
  := by
  obtain ⟨e', he', rfl⟩ := h
  use e'.parentheses
  rw [analysis, Analysis.map, he']
  exact ⟨rfl, rfl⟩

/-- Where a phrase needs parentheses as an operand, so does the expression that it folds to. -/
theorem FoldsTo.operand {p : Phrase} {e : Expr} (h : c.FoldsTo s p e) (least level : Nat) :
  c.FoldsTo s (Expr.operandPhrase least level p) (Expr.operandExpr least level e)
  := by
  rw [Expr.operandPhrase, Expr.operandExpr]
  split
  · apply h
  · apply h.parentheses

/-- A prefix operator without a value is read again as it is. -/
theorem FoldsTo.unary {operator : UnaryOperator} {p : Phrase} {e : Expr} (h : c.FoldsTo s p e)
    (hvalue : ¬ (Expr.evaluateUnary operator e).IsValue) (span : Span) :
  c.FoldsTo s (.unary (.intrinsic operator) p span) (.unary operator e)
  := by
  obtain ⟨e', he', rfl⟩ := h
  use .unary operator e'
  rw [analysis, Analysis.map, he', Expr.fold, Expr.settle_of_not_isValue hvalue]
  exact ⟨rfl, rfl⟩

/-- An infix operator without a value is read again as it is. -/
theorem FoldsTo.binary {operator : BinaryOperator} {p q : Phrase} {e f : Expr}
    (hp : c.FoldsTo s p e) (hq : c.FoldsTo s q f)
    (hvalue : ¬ (Expr.evaluateBinary c.config operator e f).IsValue) :
  c.FoldsTo s (.binary (.intrinsic operator) p q) (.binary operator e f)
  := by
  obtain ⟨e', he', rfl⟩ := hp
  obtain ⟨f', hf', rfl⟩ := hq
  use .binary operator e' f'
  rw [analysis, Analysis.join, he', hf', Expr.fold, Expr.settle_of_not_isValue hvalue]
  exact ⟨rfl, rfl⟩

/-- A reference without a value is read again as it is. -/
theorem FoldsTo.reference {name : String} {symbol : Option SymbolId} {ps : Phrase.ArgList}
    {args : Expr.Args} (hname : (c.vocabulary s).reference name symbol)
    (h : c.FoldsToArgs s ps args)
    (hvalue : ¬ (Expr.evaluateReference c.config name symbol args).IsValue) :
  c.FoldsTo s (.reference ⟨name, default⟩ ps default) (.reference name symbol args)
  := by
  obtain ⟨args', hargs', rfl⟩ := h
  obtain ⟨-, rfl, hknown⟩ := hname
  use .reference name (c.tree.denoted? s name) args'
  constructor
  · rw [analysis, if_neg]
    · rw [Analysis.after, Analysis.map, hargs']
      rfl
    · intro hunknown
      obtain ⟨hnone, hnoFunction⟩ := Bool.and_eq_true_iff.mp hunknown
      have hfunction := hknown (Option.isNone_iff_eq_none.mp hnone)
      rw [Option.isNone_iff_eq_none.mp hnoFunction] at hfunction
      contradiction
  · rw [Expr.fold, Expr.settle_of_not_isValue hvalue]

/-- A constant that can be written is read again, in the kind that it has where none is written. -/
theorem foldsTo_constant {value : Constant} (h : value.Spellable) :
  c.FoldsTo s value.phrase (.constant (value.renew c.config))
  := by
  cases value with
  | integer n k =>
    rw [Constant.phrase]
    split
    · -- a negative number is read as a negation, which has a value
      use .unary .negate (.constant (.integer (-n) c.config.integerKind)), rfl
      have hfit : Integer.fit (- -n) = .ok n := by
        rw [Int.neg_neg]
        apply Integer.fit_of_fits ⟨Int.le_of_lt h.1, h.2⟩
      change (Expr.settle _ _ (.ofInteger _ (Integer.fit (- -n)))).1 = _
      rw [hfit]
      rfl
    · exact ⟨_, rfl, rfl⟩
  | real digits k => exact ⟨_, rfl, rfl⟩
  | logical value k => exact ⟨_, rfl, rfl⟩
  | character value k => exact ⟨_, rfl, rfl⟩

mutual

/-- What a folded expression is written as is folded to the expression again, but for kinds and
parentheses. -/
theorem foldsTo_phrase :
    (e : Expr) → e.In (c.vocabulary s) → e.Folded c.config → IntegersSpellable e.constants →
      c.FoldsTo s e.phrase (e.renew c.config)
  | .constant value, he, _, h =>
    foldsTo_constant (Constant.Legible.spellable he (List.mem_singleton_self value) h)
  | .designator name x, he, _, _ => by
    -- the name is that of no constant, so the analysis leaves it
    obtain ⟨-, hdenoted, hnone⟩ := he
    use .designator name x
    constructor
    · rw [Expr.phrase, analysis]
      simp only [hdenoted, Tree.designated, hnone]
      rfl
    · rfl
  | .component base name, he, hfolded, h => by
    have hbase := (foldsTo_phrase base he.1 hfolded h).operand Expr.primaryLevel base.level
    obtain ⟨b, hb, hfold⟩ := hbase
    use .component b name
    rw [Expr.phrase, analysis, Analysis.map, hb, Expr.fold, hfold]
    exact ⟨rfl, rfl⟩
  | .reference name symbol args, he, hfolded, h => by
    apply FoldsTo.reference he.1 (foldsToArgs_phrases args he.2 hfolded.1 h)
    rw [Expr.isValue_evaluateReference_renew]
    apply hfolded.2
  | .parentheses inner, he, hfolded, h => by
    have hinner := (foldsTo_phrase inner he hfolded.1 h).parentheses default
    rw [Expr.enclose_of_constant?_eq_none] at hinner
    · apply hinner
    · rw [Expr.constant?_renew, hfolded.2]
      rfl
  | .unary operator operand, he, hfolded, h => by
    apply ((foldsTo_phrase operand he hfolded.1 h).operand _ _).unary
    rw [Expr.isValue_evaluateUnary_renew]
    apply hfolded.2
  | .binary operator left right, he, hfolded, h => by
    have hleft := foldsTo_phrase left he.1 hfolded.1 fun n k hn =>
      h n k (List.mem_append_left _ hn)
    have hright := foldsTo_phrase right he.2 hfolded.2.1 fun n k hn =>
      h n k (List.mem_append_right _ hn)
    apply (hleft.operand _ _).binary (hright.operand _ _)
    rw [Expr.isValue_evaluateBinary_renew]
    apply hfolded.2.2

/-- Folded arguments are read again, up to the kinds of constants and to parentheses. -/
theorem foldsToArgs_phrases :
    (args : Expr.Args) → args.In (c.vocabulary s) → args.Folded c.config →
      IntegersSpellable args.constants → c.FoldsToArgs s args.phrases (args.renew c.config)
  | .nil, _, _, _ => ⟨.nil, rfl, rfl⟩
  | .cons keyword value rest, hargs, hfolded, h => by
    obtain ⟨v, hv, hfoldv⟩ := foldsTo_phrase value hargs.2.1 hfolded.1 fun n k hn =>
      h n k (List.mem_append_left _ hn)
    obtain ⟨r, hr, hfoldr⟩ := foldsToArgs_phrases rest hargs.2.2 hfolded.2 fun n k hn =>
      h n k (List.mem_append_right _ hn)
    refine ⟨.cons keyword v r, ?_, ?_⟩
    · rw [Expr.Args.phrases, analysisOfArgs, Analysis.join, hv, hr]
      cases keyword <;> rfl
    · rw [Expr.Args.fold, hfoldv, hfoldr, Expr.Args.renew]

end

/-! ## Places do not matter -/

/-- The kind of a literal does not depend on where it stands. -/
theorem result_analyzeKind (standard : Int) (span span' : Span) (suffix : Option String) :
  (c.analyzeKind s standard span suffix).result = (c.analyzeKind s standard span' suffix).result
  := by
  cases suffix with
  | none => rfl
  | some suffix =>
    simp only [analyzeKind, Name.text_ofSpelling]
    split
    · split <;> rfl
    · rfl

mutual

/-- What a phrase means does not depend on where it stands. -/
theorem result_analysis_bare :
    (p : Phrase) → (c.analysis s p.bare).result = (c.analysis s p).result
  | .integer _ kind span => congrArg (Option.map _) (result_analyzeKind _ default span kind)
  | .real _ kind span => congrArg (Option.map _) (result_analyzeKind _ default span kind)
  | .character _ _ => rfl
  | .logical _ _ => rfl
  | .designator name => by
    rw [Phrase.bare, analysis, analysis, Name.bare]
    cases c.tree.denoted? s name.text <;> rfl
  | .component base _ => congrArg (Option.map _) (result_analysis_bare base)
  | .reference callee args _ => by
    have hargs := result_analysisOfArgs_bare args
    rw [Phrase.bare, analysis, analysis, Name.bare]
    simp only [Analysis.after, Analysis.map]
    split
    · rfl
    · rw [hargs]
  | .parentheses inner _ => congrArg (Option.map _) (result_analysis_bare inner)
  | .unary (.intrinsic _) operand _ => congrArg (Option.map _) (result_analysis_bare operand)
  | .unary (.defined _) _ _ => rfl
  | .binary (.intrinsic operator) left right => by
    rw [Phrase.bare, analysis, analysis, Analysis.join, Analysis.join, result_analysis_bare left,
      result_analysis_bare right]
  | .binary (.defined _) _ _ => rfl

theorem result_analysisOfArgs_bare :
    (args : Phrase.ArgList) →
      (c.analysisOfArgs s args.bare).result = (c.analysisOfArgs s args).result
  | .nil => rfl
  | .cons keyword value rest => by
    rw [Phrase.ArgList.bare, analysisOfArgs, analysisOfArgs, Analysis.join, Analysis.join,
      result_analysis_bare value, result_analysisOfArgs_bare rest, Option.map_map]
    rfl

end

end Context

/-! ## Reading the text -/

/-- The text of an expression is read as its phrase. -/
theorem Expr.exists_ofSource_text {e : Expr} (h : e.Spellable) (file : String) :
  ∃ p, Phrase.ofSource e.text file = .ok p ∧ p.bare = e.phrase.bare
  := by
  obtain ⟨-, hlex⟩ := e.spells_text h [] [] trivial .nil
  simp only [List.append_nil] at hlex
  obtain ⟨ts, eof, hts, heof, hwords⟩ := hlex file 0
  obtain ⟨p, hp, hbare⟩ :=
    Phrase.exists_ofTokens (e.writable_phrase h) e.graded_phrase hwords heof
  refine ⟨p, ?_, hbare⟩
  rw [Phrase.ofSource, tokenize, hts]
  apply hp

/-- Reading the text of a folded expression, analysing and folding it gives the expression again,
but for kinds and parentheses. -/
theorem Context.exists_foldsTo_text {c : Context} {s : ScopeId} {e : Expr}
    (he : e.In (c.vocabulary s)) (hfolded : e.Folded c.config)
    (h : IntegersSpellable e.constants) (file : String) :
  ∃ p, Phrase.ofSource e.text file = .ok p ∧ c.FoldsTo s p (e.renew c.config)
  := by
  obtain ⟨p, hp, hbare⟩ := e.exists_ofSource_text (he.spellable h) file
  obtain ⟨e', he', hfold⟩ := foldsTo_phrase e he hfolded h
  refine ⟨p, hp, e', ?_, hfold⟩
  rw [← result_analysis_bare, hbare, result_analysis_bare, he']

end FortranScope
