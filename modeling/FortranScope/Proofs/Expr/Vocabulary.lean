import FortranScope.Proofs.Expr.Folding
import FortranScope.Proofs.Expr.Reference
import FortranScope.Proofs.Expr.Writing
import FortranScope.Proofs.Phrase.Legibility

/-!
# Vocabularies

A `Vocabulary` says which constants and names an expression may consist of, and `Expr.In` that
an expression does.  Folding keeps an expression in a vocabulary in which operations give
constants of the vocabulary.  The analysis of a legible phrase gives an expression in the
vocabulary of its scope, where names are in small letters, denote what the expression refers to
and name no constants.
-/

namespace FortranScope

/-- Which constants, names and keywords an expression may consist of. -/
structure Vocabulary where
  constant : Constant → Prop
  designator : String → SymbolId → Prop
  component : String → Prop
  reference : String → Option SymbolId → Prop
  keyword : String → Prop

namespace Expr

mutual

/-- The expression consists of what is in the vocabulary. -/
def In (V : Vocabulary) : Expr → Prop
  | constant value => V.constant value
  | designator name symbol => V.designator name symbol
  | component base name => base.In V ∧ V.component name
  | reference name symbol args => V.reference name symbol ∧ args.In V
  | parentheses inner => inner.In V
  | unary _ operand => operand.In V
  | binary _ left right => left.In V ∧ right.In V

/-- The arguments consist of what is in the vocabulary. -/
def Args.In (V : Vocabulary) : Args → Prop
  | .nil => True
  | .cons keyword value rest => (∀ name ∈ keyword, V.keyword name) ∧ value.In V ∧ rest.In V

end

mutual

/-- The constants in an expression. -/
def constants : Expr → List Constant
  | constant value => [value]
  | designator _ _ => []
  | component base _ => base.constants
  | reference _ _ args => args.constants
  | parentheses inner => inner.constants
  | unary _ operand => operand.constants
  | binary _ left right => left.constants ++ right.constants

/-- The constants in arguments. -/
def Args.constants : Args → List Constant
  | .nil => []
  | .cons _ value rest => value.constants ++ rest.constants

end

end Expr

/-! ## Folding -/

/-- The value of an operation on constants of the vocabulary is in the vocabulary. -/
structure Vocabulary.Closed (V : Vocabulary) (config : Config) : Prop where
  unary : ∀ {operator : UnaryOperator} {c d : Constant}, V.constant c →
    c.applyUnary operator = .value d → V.constant d
  binary : ∀ {operator : BinaryOperator} {c c' d : Constant}, V.constant c → V.constant c' →
    c.applyBinary config operator c' = .value d → V.constant d
  intrinsic : ∀ {f : Intrinsic} {args : List (Option String × Constant)} {d : Constant},
    (∀ arg ∈ args, V.constant arg.2) → f.apply config args = .value d → V.constant d

namespace Expr

variable {V : Vocabulary} {config : Config}

/-- The value of an operation is in the vocabulary if it is a constant of it. -/
theorem In.settle {e : Expr} {outcome : Evaluation} (he : e.In V)
    (hvalue : ∀ c, outcome = .value c → V.constant c) (warnings : List Cause) :
  (settle e warnings outcome).1.In V
  := by
  cases outcome with
  | value c => apply hvalue c rfl
  | stuck => apply he
  | failed cause => apply he

/-- Parentheses need no vocabulary. -/
theorem In.enclose {e : Expr} (he : e.In V) :
  e.enclose.In V
  := by
  cases e
  all_goals apply he

/-- A constant that consists of the vocabulary is one of its constants. -/
theorem In.constant? {e : Expr} (he : e.In V) {c : Constant} (hc : e.constant? = some c) :
  V.constant c
  := by
  rw [eq_constant_of_constant? hc] at he
  apply he

/-- Constant arguments that consist of the vocabulary are constants of it. -/
theorem Args.In.constants? {args : Args} (hargs : args.In V)
    {cs : List (Option String × Constant)} (hcs : args.constants? = some cs) :
  ∀ arg ∈ cs, V.constant arg.2
  := by
  match args with
  | .nil =>
    obtain rfl := Option.some.inj hcs
    simp
  | .cons keyword value rest =>
    rw [Args.constants?] at hcs
    split at hcs
    · next c ds hvalue hrest =>
      obtain rfl := Option.some.inj hcs
      exact List.forall_mem_cons.mpr ⟨hargs.2.1.constant? hvalue, hargs.2.2.constants? hrest⟩
    · cases hcs

mutual

/-- Folding keeps an expression in a vocabulary that is closed. -/
theorem In.fold (hV : V.Closed config) : {e : Expr} → e.In V → (e.fold config).1.In V
  | constant _, he => he
  | designator _ _, he => he
  | component _ _, he => ⟨he.1.fold hV, he.2⟩
  | reference name symbol args, he => by
    have hargs := Args.In.fold hV he.2
    apply In.settle (e := reference name symbol (args.fold config).1) ⟨he.1, hargs⟩
    intro c hc
    unfold evaluateReference at hc
    split at hc
    · next f cs hname hcs => apply hV.intrinsic (hargs.constants? hcs) hc
    · cases hc
  | parentheses _, he => In.enclose (In.fold hV he)
  | unary operator operand, he => by
    have hoperand : (operand.fold config).1.In V := In.fold hV he
    apply In.settle (e := unary operator (operand.fold config).1) hoperand
    intro c hc
    unfold evaluateUnary at hc
    split at hc
    · next d hd => apply hV.unary (hoperand.constant? hd) hc
    · cases hc
  | binary operator left right, he => by
    have hleft := he.1.fold hV
    have hright := he.2.fold hV
    apply In.settle (e := binary operator (left.fold config).1 (right.fold config).1)
      ⟨hleft, hright⟩
    intro c hc
    unfold evaluateBinary at hc
    split at hc
    · next d d' hd hd' => apply hV.binary (hleft.constant? hd) (hright.constant? hd') hc
    · cases hc

theorem Args.In.fold (hV : V.Closed config) :
    {args : Args} → args.In V → (args.fold config).1.In V
  | .nil, hargs => hargs
  | .cons _ _ _, hargs => ⟨hargs.1, hargs.2.1.fold hV, hargs.2.2.fold hV⟩

end

end Expr

/-! ## Legible constants -/

/-- A real constant can be written without its kind. -/
def Constant.Legible : Constant → Prop
  | real digits _ => IsReal digits.toList
  | _ => True

/-- Integers are legible. -/
theorem Constant.legible_of_ofInteger {kind : Int} {outcome : Except Cause Int} {d : Constant}
    (h : Evaluation.ofInteger kind outcome = .value d) :
  d.Legible
  := by
  obtain ⟨n, -, rfl⟩ := Evaluation.exists_of_ofInteger h
  trivial

/-- What a prefix operator gives is legible. -/
theorem Constant.legible_of_applyUnary {operator : UnaryOperator} {c d : Constant}
    (h : c.applyUnary operator = .value d) :
  d.Legible
  := by
  unfold applyUnary at h
  split at h
  · cases h
    trivial
  · apply legible_of_ofInteger h
  · cases h
    trivial
  · cases h

/-- What an operator gives is legible: no operation gives a real number. -/
theorem Constant.legible_of_applyBinary {config : Config} {operator : BinaryOperator}
    {c c' d : Constant} (h : c.applyBinary config operator c' = .value d) :
  d.Legible
  := by
  unfold applyBinary at h
  split at h
  · unfold applyToIntegers at h
    split at h
    · cases h
      trivial
    · split at h
      · apply legible_of_ofInteger h
      · cases h
  · unfold applyToLogicals at h
    split at h
    · cases h
      trivial
    · cases h
  · split at h
    · cases h
      trivial
    · cases h
  · cases h

/-- What an intrinsic function gives is legible. -/
theorem Intrinsic.legible_of_apply {config : Config} {f : Intrinsic}
    {args : List (Option String × Constant)} {d : Constant} (h : f.apply config args = .value d) :
  d.Legible
  := by
  have hextreme (choose : Int → Int → Int) (cs : List Constant)
      (h : applyExtreme choose cs = .value d) : d.Legible := by
    unfold applyExtreme at h
    split at h
    · cases h
      trivial
    · cases h
  unfold apply at h
  split at h
  · cases h
    trivial
  · cases h
    trivial
  · apply hextreme _ _ h
  · apply hextreme _ _ h
  · apply Constant.legible_of_ofInteger h
  · split at h
    · apply Constant.legible_of_ofInteger h
    · cases h
  · cases h
    trivial
  · cases h

/-- No operation has a real value, so the values of operations are legible. -/
theorem Vocabulary.closed_of_legible {V : Vocabulary} (hV : V.constant = Constant.Legible)
    (config : Config) :
  V.Closed config
  := by
  constructor
  · intro operator c d hc h
    rw [hV]
    apply Constant.legible_of_applyUnary h
  · intro operator c c' d hc hc' h
    rw [hV]
    apply Constant.legible_of_applyBinary h
  · intro f args d hargs h
    rw [hV]
    apply Intrinsic.legible_of_apply h

/-- The integers among the constants are negatives or values of literals. -/
def IntegersSpellable (constants : List Constant) : Prop :=
  ∀ n k, .integer n k ∈ constants → (Constant.integer n k).Spellable

/-- Of legible constants only integers may fail to be spellable. -/
theorem Constant.Legible.spellable {c : Constant} (h : c.Legible) {constants : List Constant}
    (hc : c ∈ constants) (hintegers : IntegersSpellable constants) :
  c.Spellable
  := by
  cases c with
  | integer n k => apply hintegers n k hc
  | real digits k => apply h
  | logical value k => trivial
  | character value k => trivial

/-! ## Analysis -/

/-- The names in the expressions of `s`: they are in small letters, denote what the expression
refers to, or an intrinsic function where it refers to nothing, and designators are not of named
constants. -/
def Context.vocabulary (c : Context) (s : ScopeId) : Vocabulary where
  constant := Constant.Legible
  designator name symbol := IsName name.toList ∧ c.tree.denoted? s name = some symbol
    ∧ (c.tree.symbol symbol).namedConstant? = none
  component name := IsName name.toList
  reference name symbol := IsName name.toList ∧ c.tree.denoted? s name = symbol
    ∧ (symbol = none → (Intrinsic.ofName? name).isSome)
  keyword name := IsName name.toList

namespace Context

variable {c : Context} {s : ScopeId}

/-- Every named constant is legible. -/
def LegibleConstants (c : Context) : Prop :=
  ∀ x constant, (c.tree.symbol x).namedConstant? = some constant → constant.Legible

mutual

/-- The analysis of a legible phrase gives an expression of the scope. -/
theorem in_of_analysis (hconstants : c.LegibleConstants) :
    (p : Phrase) → p.Legible → ∀ {e}, (c.analysis s p).result = some e →
      e.In (c.vocabulary s)
  | .integer _ _ _, _, e, h => by
    obtain ⟨k, -, rfl⟩ := Option.map_eq_some_iff.mp h
    trivial
  | .real _ _ _, hp, e, h => by
    obtain ⟨k, -, rfl⟩ := Option.map_eq_some_iff.mp h
    exact hp
  | .character _ _, _, e, h => by
    cases h
    trivial
  | .logical _ _, _, e, h => by
    cases h
    trivial
  | .designator name, hp, e, h => by
    rw [analysis] at h
    split at h
    · next x hx =>
      cases h
      rw [Tree.designated]
      split
      · -- a named constant stands for its value, which has to be an expression of the scope itself
        next constant hconstant => exact hconstants x constant hconstant
      · next hnone => exact ⟨hp, hx, hnone⟩
    · cases h
  | .component base _, hp, e, h => by
    obtain ⟨b, hb, rfl⟩ := Option.map_eq_some_iff.mp h
    exact ⟨in_of_analysis hconstants base hp.1 hb, hp.2⟩
  | .reference callee args _, hp, e, h => by
    rw [analysis] at h
    split at h
    · cases h
    · next hknown =>
      obtain ⟨a, ha, rfl⟩ := Option.map_eq_some_iff.mp h
      refine ⟨⟨hp.1, rfl, ?_⟩, in_of_analysisOfArgs hconstants args hp.2 ha⟩
      -- a name that denotes nothing passes only if it is that of an intrinsic function
      intro hnone
      rw [Option.isSome_iff_ne_none]
      simpa [hnone] using hknown
  | .parentheses inner _, hp, e, h => by
    obtain ⟨i, hi, rfl⟩ := Option.map_eq_some_iff.mp h
    have hinner := in_of_analysis hconstants inner hp hi
    exact hinner
  | .unary (.intrinsic _) operand _, hp, e, h => by
    obtain ⟨o, ho, rfl⟩ := Option.map_eq_some_iff.mp h
    have hoperand := in_of_analysis hconstants operand hp ho
    exact hoperand
  | .unary (.defined _) _ _, _, e, h => by
    cases h
  | .binary (.intrinsic _) left right, hp, e, h => by
    obtain ⟨l, r, hl, hr, rfl⟩ := Analysis.join_eq_some h
    exact ⟨in_of_analysis hconstants left hp.1 hl, in_of_analysis hconstants right hp.2 hr⟩
  | .binary (.defined _) _ _, _, e, h => by
    cases h

theorem in_of_analysisOfArgs (hconstants : c.LegibleConstants) :
    (args : Phrase.ArgList) → args.Legible → ∀ {a}, (c.analysisOfArgs s args).result = some a →
      a.In (c.vocabulary s)
  | .nil, _, a, h => by
    cases h
    trivial
  | .cons keyword value rest, hp, a, h => by
    obtain ⟨v, r, hv, hr, rfl⟩ := Analysis.join_eq_some h
    refine ⟨?_, in_of_analysis hconstants value hp.2.1 hv,
      in_of_analysisOfArgs hconstants rest hp.2.2 hr⟩
    intro name hname
    obtain ⟨word, hword, rfl⟩ := Option.map_eq_some_iff.mp hname
    exact hp.1 word hword

end

/-- The analysis of a legible phrase, folded, is an expression of the scope. -/
theorem in_fold_of_analysis (h : c.LegibleConstants) {p : Phrase} (hp : p.Legible) {e : Expr}
    (he : (c.analysis s p).result = some e) (config : Config) :
  (e.fold config).1.In (c.vocabulary s)
  := (in_of_analysis h p hp he).fold (Vocabulary.closed_of_legible rfl config)

end Context

/-! ## Writing -/

namespace Expr

variable {c : Context} {s : ScopeId}

mutual

/-- An expression of a scope can be written if the integers in it can. -/
theorem In.spellable :
    {e : Expr} → e.In (c.vocabulary s) → IntegersSpellable e.constants → e.Spellable
  | constant value, he, h => Constant.Legible.spellable he (List.mem_singleton_self value) h
  | designator _ _, he, _ => he.1
  | component _ _, he, h => ⟨he.1.spellable h, he.2⟩
  | reference _ _ _, he, h => ⟨he.1.1, he.2.spellable h⟩
  | parentheses inner, he, h => In.spellable (e := inner) he h
  | unary _ operand, he, h => In.spellable (e := operand) he h
  | binary _ _ _, he, h =>
    ⟨he.1.spellable fun n k hn => h n k (List.mem_append_left _ hn),
      he.2.spellable fun n k hn => h n k (List.mem_append_right _ hn)⟩

theorem Args.In.spellable :
    {args : Args} → args.In (c.vocabulary s) → IntegersSpellable args.constants → args.Spellable
  | .nil, _, _ => trivial
  | .cons _ _ _, hargs, h =>
    ⟨hargs.1, hargs.2.1.spellable fun n k hn => h n k (List.mem_append_left _ hn),
      hargs.2.2.spellable fun n k hn => h n k (List.mem_append_right _ hn)⟩

end

end Expr

end FortranScope
