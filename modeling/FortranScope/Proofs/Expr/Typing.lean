import FortranScope.Proofs.Expr.Faults
import FortranScope.Proofs.Expr.Reference

/-!
# Types by declaration

The type of a phrase can be read off the declarations of the entities in it, without their values.
An analysis does not look at these declarations: it gives constants the types that their initial
values came out with.  If the two agree wherever a name stands for a constant, then whatever
a phrase is folded to has the type that the declarations give the phrase.
-/

namespace FortranScope

/-! ## Types of scalars -/

/-- An intrinsic type of scalars.  As a configuration may give any default kinds, a kind need not
be positive here. -/
structure ScalarType where
  category : TypeCategory
  kind : Int
deriving DecidableEq

/-- The type of a constant. -/
def Constant.type : Constant → ScalarType
  | integer _ kind => ⟨.integer, kind⟩
  | real _ kind => ⟨.real, kind⟩
  | logical _ kind => ⟨.logical, kind⟩
  | character _ kind => ⟨.character, kind⟩

/-- The type of a constant has its kind. -/
theorem Constant.kind_type (d : Constant) :
  d.type.kind = d.kind
  := by
  cases d <;> rfl

/-- The type as one of scalars. -/
def IntrinsicType.scalar (type : IntrinsicType) : ScalarType := ⟨type.category, type.kind⟩

/-! ## Operators and functions -/

/-- The type of an operator before an operand of the type `a`, if it is evaluated. -/
def UnaryOperator.type? (operator : UnaryOperator) (a : ScalarType) : Option ScalarType :=
  match operator, a.category with
  | .plus, .integer => some a
  | .negate, .integer => some a
  | .not, .logical => some a
  | _, _ => none

namespace BinaryOperator

/-- The type of an operator between integers of the kinds `ka` and `kb`, if it is evaluated. -/
def integersType? (config : Config) (operator : BinaryOperator) (ka kb : Int) :
    Option ScalarType :=
  match operator with
  | .power | .multiply | .divide | .add | .subtract => some ⟨.integer, max ka kb⟩
  | .eq | .ne | .lt | .le | .gt | .ge => some ⟨.logical, config.logicalKind⟩
  | _ => none

/-- The type of an operator between logical operands of the kinds `ka` and `kb`, if it is
evaluated. -/
def logicalsType? (operator : BinaryOperator) (ka kb : Int) : Option ScalarType :=
  match operator with
  | .and | .or | .eqv | .neqv | .xor => some ⟨.logical, max ka kb⟩
  | _ => none

/-- The type of an operator between operands of the types `a` and `b`, if it is evaluated. -/
def type? (config : Config) (operator : BinaryOperator) (a b : ScalarType) :
    Option ScalarType :=
  match a.category, b.category with
  | .integer, .integer => operator.integersType? config a.kind b.kind
  | .logical, .logical => operator.logicalsType? a.kind b.kind
  | .character, .character => if operator = .concat then some a else none
  | _, _ => none

end BinaryOperator

namespace Intrinsic

/-- The type of the extreme of arguments of the given types, which have to be integers. -/
def extremeType? (types : List ScalarType) : Option ScalarType :=
  if ∀ a ∈ types, a.category = .integer then
    (types.map ScalarType.kind).max?.map fun k => ⟨.integer, k⟩
  else none

/-- The type of the function at arguments of the given types, if it is evaluated. -/
def type? (config : Config) (f : Intrinsic) (types : List ScalarType) : Option ScalarType :=
  match f, types with
  | kind, [_] => some ⟨.integer, config.integerKind⟩
  | len, [⟨.character, _⟩] => some ⟨.integer, config.integerKind⟩
  | max, types => extremeType? types
  | min, types => extremeType? types
  | abs, [⟨.integer, k⟩] => some ⟨.integer, k⟩
  | mod, [⟨.integer, k⟩, ⟨.integer, _⟩] => some ⟨.integer, k⟩
  | selectedIntKind, [⟨.integer, _⟩] => some ⟨.integer, config.integerKind⟩
  | _, _ => none

end Intrinsic

section

variable {config : Config} {c d r : Constant}

/-- The value of a prefix operator has the type that its operand determines. -/
theorem UnaryOperator.type?_of_applyUnary {operator : UnaryOperator}
    (h : c.applyUnary operator = .value r) :
  operator.type? c.type = some r.type
  := by
  unfold Constant.applyUnary at h
  split at h
  · rw [← Evaluation.value.inj h]
    rfl
  · obtain ⟨n, -, rfl⟩ := Evaluation.exists_of_ofInteger h
    rfl
  · rw [← Evaluation.value.inj h]
    rfl
  · cases h

namespace BinaryOperator

variable {operator : BinaryOperator} {a b ka kb : Int}

/-- The value of an operator between integers has the type that their kinds determine. -/
theorem integersType?_of_applyToIntegers
    (h : Constant.applyToIntegers config operator a ka b kb = .value r) :
  operator.integersType? config ka kb = some r.type
  := by
  cases operator
  case eq | ne | lt | le | gt | ge =>
    rw [← Evaluation.value.inj h]
    rfl
  case power | multiply | divide | add | subtract =>
    obtain ⟨n, -, rfl⟩ := Evaluation.exists_of_ofInteger h
    rfl
  all_goals cases h

/-- The value of an operator between logicals has the type that their kinds determine. -/
theorem logicalsType?_of_applyToLogicals {a b : Bool}
    (h : Constant.applyToLogicals operator a ka b kb = .value r) :
  operator.logicalsType? ka kb = some r.type
  := by
  cases operator
  case and | or | eqv | neqv | xor =>
    rw [← Evaluation.value.inj h]
    rfl
  all_goals cases h

/-- The value of an operator has the type that the types of its operands determine. -/
theorem type?_of_applyBinary (h : c.applyBinary config operator d = .value r) :
  operator.type? config c.type d.type = some r.type
  := by
  unfold Constant.applyBinary at h
  split at h
  · apply integersType?_of_applyToIntegers h
  · apply logicalsType?_of_applyToLogicals h
  · split at h
    · next hconcat =>
      rw [← Evaluation.value.inj h]
      exact if_pos hconcat
    · cases h
  · cases h

end BinaryOperator

namespace Intrinsic

/-- Only integers have values as integers. -/
theorem category_of_mapM_integer? {cs : List Constant} {ns : List Int}
    (h : cs.mapM Constant.integer? = some ns) :
  ∀ c ∈ cs, c.type.category = .integer
  := by
  induction cs generalizing ns with
  | nil =>
    intro c hc
    cases hc
  | cons c cs ih =>
    simp only [List.mapM_cons, Option.pure_def, Option.bind_eq_bind, Option.bind_eq_some_iff] at h
    obtain ⟨n, hn, ms, hms, -⟩ := h
    rw [List.forall_mem_cons]
    constructor
    · cases c with
      | integer => rfl
      | _ => cases hn
    · apply ih hms

/-- Whatever an extreme is chosen by, it has the largest kind. -/
theorem extremeType?_of_applyExtreme {choose : Int → Int → Int} {cs : List Constant}
    (h : applyExtreme choose cs = .value r) :
  extremeType? (cs.map Constant.type) = some r.type
  := by
  unfold applyExtreme at h
  split at h
  · next n ns k ks hns hks =>
    have hinteger : ∀ a ∈ cs.map Constant.type, a.category = .integer := by
      intro a ha
      obtain ⟨c, hc, rfl⟩ := List.mem_map.mp ha
      apply category_of_mapM_integer? hns c hc
    have hkinds : (cs.map Constant.type).map ScalarType.kind = k :: ks := by
      rw [List.map_map, ← hks]
      apply List.map_congr_left
      rintro c -
      cases c <;> rfl
    rw [← Evaluation.value.inj h, extremeType?, if_pos hinteger, hkinds, List.max?_cons']
    rfl
  · cases h

/-- The value of an intrinsic function has the type that the types of its arguments determine. -/
theorem type?_of_apply {f : Intrinsic} {args : List (Option String × Constant)}
    (h : f.apply config args = .value r) :
  f.type? config (args.map fun arg => arg.2.type) = some r.type
  := by
  have htypes : (args.map fun arg => arg.2.type) = (args.map Prod.snd).map Constant.type := by
    rw [List.map_map]
    rfl
  rw [htypes]
  unfold apply at h
  split at h
  · next hargs =>
    rw [hargs, ← Evaluation.value.inj h]
    rfl
  · next hargs =>
    rw [hargs, ← Evaluation.value.inj h]
    rfl
  · apply extremeType?_of_applyExtreme h
  · apply extremeType?_of_applyExtreme h
  · next hargs =>
    obtain ⟨n, -, rfl⟩ := Evaluation.exists_of_ofInteger h
    rw [hargs]
    rfl
  · next hargs =>
    split at h
    · obtain ⟨n, -, rfl⟩ := Evaluation.exists_of_ofInteger h
      rw [hargs]
      rfl
    · cases h
  · next hargs =>
    rw [hargs, ← Evaluation.value.inj h]
    rfl
  · cases h

end Intrinsic

end

/-! ## Entities and phrases -/

/-- The type of the scalar object that `x` is: the intrinsic type that it is declared with, or if
there is none, that of the constant that it names. -/
def Symbol.scalarType? (x : Symbol) : Option ScalarType :=
  match x.details with
  | .object details =>
    if details.shape = [] then
      match details.type with
      | some (.intrinsic type) => some type.scalar
      | _ => x.namedConstant?.map Constant.type
    else none
  | _ => none

namespace Context

mutual

/-- The type of a phrase in `s` by the declarations of the entities that it names, if it is one
of scalars that folding may give a value. -/
def typeOf? (c : Context) (s : ScopeId) : Phrase → Option ScalarType
  | .integer _ kind span =>
    (c.analyzeKind s c.config.integerKind span kind).result.map fun k => ⟨.integer, k⟩
  | .real digits kind span =>
    (c.analyzeKind s (c.config.kindOfReal digits) span kind).result.map fun k => ⟨.real, k⟩
  | .character _ _ => some ⟨.character, c.config.characterKind⟩
  | .logical _ _ => some ⟨.logical, c.config.logicalKind⟩
  | .designator name =>
    (c.tree.denoted? s name.text).bind fun x => (c.tree.symbol x).scalarType?
  | .component _ _ => none
  | .reference callee args _ =>
    match c.tree.denoted? s callee.text, Intrinsic.ofName? callee.text with
    | none, some f => (c.typesOf? s args).bind fun types => f.type? c.config types
    | _, _ => none
  | .parentheses inner _ => c.typeOf? s inner
  | .unary (.intrinsic operator) operand _ => (c.typeOf? s operand).bind operator.type?
  | .unary (.defined _) _ _ => none
  | .binary (.intrinsic operator) left right =>
    (c.typeOf? s left).bind fun a => (c.typeOf? s right).bind fun b => operator.type? c.config a b
  | .binary (.defined _) _ _ => none

/-- The types of all arguments of a reference in `s`. -/
def typesOf? (c : Context) (s : ScopeId) : Phrase.ArgList → Option (List ScalarType)
  | .nil => some []
  | .cons _ value rest =>
    (c.typeOf? s value).bind fun a => (c.typesOf? s rest).map fun types => a :: types

end

/-- A designator stands for a constant exactly if it denotes a named one. -/
theorem result_designator_eq_some_iff {c : Context} {s : ScopeId} {name : Name} {d : Constant} :
  (c.analysis s (.designator name)).result = some (.constant d)
    ↔ ∃ x, c.tree.denoted? s name.text = some x ∧ (c.tree.symbol x).namedConstant? = some d
  := by
  rw [analysis]
  cases hx : c.tree.denoted? s name.text with
  | none => simp [Analysis.fault]
  | some x =>
    change some (c.tree.designated name.text x) = _ ↔ _
    cases hd : (c.tree.symbol x).namedConstant? <;> simp [Tree.designated, hd]

/-- The kind of a literal with a suffix is the value of the suffix, which has to be positive. -/
theorem result_analyzeKind_eq_some_iff {c : Context} {s : ScopeId} {standard k : Int}
    {span : Span} {suffix : String} :
  (c.analyzeKind s standard span (some suffix)).result = some k
    ↔ c.suffixValue? suffix (if suffix.toList.all Char.isDigit then none
        else c.tree.denoted? s (Name.ofSpelling suffix span).text) = some k ∧ 0 < k
  := by
  rw [analyzeKind]
  split
  · next n hn =>
    simp only [hn]
    split
    · next hpos =>
      constructor
      · intro h
        cases h
        exact ⟨rfl, hpos⟩
      · rintro ⟨h, -⟩
        apply h
    · next hneg =>
      constructor
      · intro h
        cases h
      · rintro ⟨h, hpos⟩
        cases h
        contradiction
  · next hnone =>
    constructor
    · intro h
      cases h
    · rintro ⟨h, -⟩
      cases hnone.symm.trans h

/-- The constant that a phrase in `s` is analysed and folded to, if it comes to one. -/
def value? (c : Context) (s : ScopeId) (p : Phrase) : Option Constant :=
  (c.analysis s p).result.bind fun e => (e.fold c.config).1.constant?

/-- What stands for a constant in `s` in the context `c` does so in `c'` too, and is declared
there with the type of the constant. -/
structure TypedIn (s : ScopeId) (c c' : Context) : Prop where
  config : c'.config = c.config
  denoted : ∀ text, c'.tree.denoted? s text = c.tree.denoted? s text
  constant : ∀ text x d, c.tree.denoted? s text = some x →
    (c.tree.symbol x).namedConstant? = some d →
    (c'.tree.symbol x).namedConstant? = some d ∧ (c'.tree.symbol x).scalarType? = some d.type

end Context

namespace Expr

/-! ## Folding to constants -/

variable {config : Config} {r : Constant}

/-- An operation comes to a constant only through its outcome. -/
theorem outcome_of_constant?_settle {e : Expr} {warnings : List Cause} {outcome : Evaluation}
    (he : e.constant? = none) (h : (settle e warnings outcome).1.constant? = some r) :
  outcome = .value r
  := by
  cases outcome with
  | value c => rw [← Option.some.inj h]
  | stuck => cases he.symm.trans h
  | failed cause => cases he.symm.trans h

/-- Parentheses around a constant are the constant. -/
theorem constant?_enclose (inner : Expr) :
  inner.enclose.constant? = inner.constant?
  := by
  cases inner <;> rfl

/-- A prefix operator has a value only at a constant operand. -/
theorem exists_of_evaluateUnary {operator : UnaryOperator} {operand : Expr}
    (h : evaluateUnary operator operand = .value r) :
  ∃ c, operand.constant? = some c ∧ c.applyUnary operator = .value r
  := by
  unfold evaluateUnary at h
  split at h
  · next c hc => exact ⟨c, hc, h⟩
  · cases h

/-- An operator has a value only at constant operands. -/
theorem exists_of_evaluateBinary {operator : BinaryOperator} {left right : Expr}
    (h : evaluateBinary config operator left right = .value r) :
  ∃ c d, left.constant? = some c ∧ right.constant? = some d
    ∧ c.applyBinary config operator d = .value r
  := by
  unfold evaluateBinary at h
  split at h
  · next c d hc hd => exact ⟨c, d, hc, hd, h⟩
  · cases h

/-- A reference has a value only if it is one to an intrinsic function, at constant arguments. -/
theorem exists_of_evaluateReference {name : String} {symbol : Option SymbolId} {args : Args}
    (h : evaluateReference config name symbol args = .value r) :
  symbol = none ∧ ∃ f constants, Intrinsic.ofName? name = some f
    ∧ args.constants? = some constants ∧ f.apply config constants = .value r
  := by
  unfold evaluateReference at h
  split at h
  · next f constants hf hconstants => exact ⟨rfl, f, constants, hf, hconstants, h⟩
  · cases h

end Expr

namespace Context.TypedIn

variable {c c' : Context} {s : ScopeId}

/-- A literal keeps its kind, for its suffix names the same constant. -/
theorem result_analyzeKind (h : TypedIn s c c') {standard : Int} {span : Span}
    {suffix : Option String} {k : Int}
    (hk : (c.analyzeKind s standard span suffix).result = some k) :
  (c'.analyzeKind s standard span suffix).result = some k
  := by
  cases suffix with
  | none => exact hk
  | some suffix =>
    rw [result_analyzeKind_eq_some_iff] at hk ⊢
    obtain ⟨hvalue, hpos⟩ := hk
    refine ⟨?_, hpos⟩
    by_cases hdigits : suffix.toList.all Char.isDigit
    · rw [suffixValue?_of_digits hdigits] at hvalue ⊢
      apply hvalue
    · rw [if_neg hdigits, suffixValue?_of_name hdigits] at hvalue ⊢
      obtain ⟨x, l, hx, hconstant, hfits⟩ := hvalue
      use x, l
      rw [h.denoted]
      exact ⟨hx, (h.constant _ x _ hx hconstant).1, hfits⟩

mutual

/-- What a phrase is folded to has the type of the phrase. -/
theorem typeOf?_of_fold (h : TypedIn s c c') : (p : Phrase) → ∀ {e r},
    (c.analysis s p).result = some e → (e.fold c.config).1.constant? = some r →
    c'.typeOf? s p = some r.type
  | .integer _ _ _, e, r, he, hr => by
    obtain ⟨k, hk, rfl⟩ := Option.map_eq_some_iff.mp he
    cases hr
    rw [typeOf?, h.config, h.result_analyzeKind hk]
    rfl
  | .real _ _ _, e, r, he, hr => by
    obtain ⟨k, hk, rfl⟩ := Option.map_eq_some_iff.mp he
    cases hr
    rw [typeOf?, h.config, h.result_analyzeKind hk]
    rfl
  | .character _ _, e, r, he, hr => by
    cases he
    cases hr
    rw [typeOf?, h.config]
    rfl
  | .logical _ _, e, r, he, hr => by
    cases he
    cases hr
    rw [typeOf?, h.config]
    rfl
  | .designator name, e, r, he, hr => by
    rw [analysis] at he
    split at he
    · next x hx =>
      cases he
      -- the designator folds to a constant only if the symbol is a named constant
      have hconstant : (c.tree.symbol x).namedConstant? = some r := by
        rw [Tree.designated] at hr
        split at hr
        · next d hd =>
          cases hr
          apply hd
        · cases hr
      rw [typeOf?, h.denoted, hx]
      apply (h.constant name.text x r hx hconstant).2
    · cases he
  | .component base name, e, r, he, hr => by
    obtain ⟨b, -, rfl⟩ := Option.map_eq_some_iff.mp he
    cases hr
  | .reference callee args _, e, r, he, hr => by
    rw [analysis] at he
    split at he
    · cases he
    · obtain ⟨a, ha, rfl⟩ := Option.map_eq_some_iff.mp he
      rw [Expr.fold] at hr
      have hvalue := Expr.outcome_of_constant?_settle rfl hr
      -- a reference folds to a constant only if it is one to an intrinsic function
      obtain ⟨hsymbol, f, constants, hf, hconstants, happly⟩ :=
        Expr.exists_of_evaluateReference hvalue
      have htypes := typesOf?_of_fold h args ha hconstants
      simp only [typeOf?, h.denoted, hsymbol, hf, htypes, Option.bind_some, h.config]
      apply Intrinsic.type?_of_apply happly
  | .parentheses inner _, e, r, he, hr => by
    obtain ⟨i, hi, rfl⟩ := Option.map_eq_some_iff.mp he
    rw [Expr.fold, Expr.constant?_enclose] at hr
    apply typeOf?_of_fold h inner hi hr
  | .unary (.intrinsic operator) operand _, e, r, he, hr => by
    obtain ⟨o, ho, rfl⟩ := Option.map_eq_some_iff.mp he
    rw [Expr.fold] at hr
    have hvalue := Expr.outcome_of_constant?_settle rfl hr
    obtain ⟨d, hd, happly⟩ := Expr.exists_of_evaluateUnary hvalue
    rw [typeOf?, typeOf?_of_fold h operand ho hd]
    apply UnaryOperator.type?_of_applyUnary happly
  | .unary (.defined _) _ _, e, r, he, hr => by
    cases he
  | .binary (.intrinsic operator) left right, e, r, he, hr => by
    obtain ⟨a, b, ha, hb, rfl⟩ := Analysis.join_eq_some he
    rw [Expr.fold] at hr
    have hvalue := Expr.outcome_of_constant?_settle rfl hr
    obtain ⟨d, d', hd, hd', happly⟩ := Expr.exists_of_evaluateBinary hvalue
    rw [typeOf?, typeOf?_of_fold h left ha hd, typeOf?_of_fold h right hb hd', h.config]
    apply BinaryOperator.type?_of_applyBinary happly
  | .binary (.defined _) _ _, e, r, he, hr => by
    cases he

/-- Arguments that are folded to constants have the types of these. -/
theorem typesOf?_of_fold (h : TypedIn s c c') : (args : Phrase.ArgList) → ∀ {a constants},
    (c.analysisOfArgs s args).result = some a → (a.fold c.config).1.constants? = some constants →
    c'.typesOf? s args = some (constants.map fun arg => arg.2.type)
  | .nil, a, constants, ha, hconstants => by
    cases ha
    cases hconstants
    rfl
  | .cons keyword value rest, a, constants, ha, hconstants => by
    obtain ⟨v, rs, hv, hrs, rfl⟩ := Analysis.join_eq_some ha
    rw [Expr.Args.fold, Expr.Args.constants?] at hconstants
    split at hconstants
    · next d ds hd hds =>
      cases hconstants
      rw [typesOf?, typeOf?_of_fold h value hv hd, typesOf?_of_fold h rest hrs hds]
      rfl
    · cases hconstants

end

/-- A phrase that comes to a constant has the type of the constant. -/
theorem typeOf?_of_value? (h : TypedIn s c c') {p : Phrase} {r : Constant}
    (hr : c.value? s p = some r) :
  c'.typeOf? s p = some r.type
  := by
  obtain ⟨e, he, hfold⟩ := Option.bind_eq_some_iff.mp hr
  apply h.typeOf?_of_fold p he hfold

end Context.TypedIn

/-! ## Substitution -/

/-- The constant has the rank that is declared and, if an intrinsic type is declared, that type. -/
structure ObjectDetails.Admits (details : ObjectDetails) (d : Constant) : Prop where
  scalar : details.shape = []
  type : ∀ type, details.type = some (.intrinsic type) → type.scalar = d.type

/-- A named constant has the type that is declared exactly if the declaration admits it. -/
theorem Symbol.scalarType?_eq_iff {x : Symbol} {d : Constant} (h : x.namedConstant? = some d) :
  x.scalarType? = some d.type ↔ ∃ details, x.details = .object details ∧ details.Admits d
  := by
  obtain ⟨-, details, hdetails, -⟩ := namedConstant?_eq_some_iff.mp h
  simp only [scalarType?, hdetails, Details.object.injEq, exists_eq_left']
  by_cases hshape : details.shape = []
  · rw [if_pos hshape]
    split
    · next type htype =>
      constructor
      · intro heq
        use hshape
        intro other hother
        cases htype.symm.trans hother
        apply Option.some.inj heq
      · intro hadmits
        rw [hadmits.type type htype]
    · next hother =>
      rw [h]
      constructor
      · intro
        use hshape
        intro type htype
        exact absurd htype (hother type)
      · intro
        rfl
  · rw [if_neg hshape]
    constructor
    · intro heq
      cases heq
    · intro hadmits
      exact absurd hadmits.scalar hshape

namespace Context

/-- Constants take the place of scalars only, and of the types that these are declared with. -/
def KeepsTypes (c : Context) : Prop :=
  ∀ s name d, (c.analysis s (.designator name)).result = some (.constant d) →
    ∃ x details, c.tree.denoted? s name.text = some x
      ∧ (c.tree.symbol x).details = .object details ∧ details.Admits d

/-- Phrases mean what they mean by the declarations of the entities in them: what a phrase is
folded to has its type, `kind` gives the kind of that type, `size` is left as it is, and a name
after a literal is that of an entity declared as an integer, whose value is the kind. -/
structure ReadsAsDeclared (c : Context) : Prop where
  type : ∀ s p d, c.value? s p = some d → c.typeOf? s p = some d.type
  kind : ∀ s callee keyword p span d, Intrinsic.ofName? callee.text = some .kind →
    c.tree.denoted? s callee.text = none → c.value? s p = some d →
    ∃ type, c.typeOf? s p = some type
      ∧ c.value? s (.reference callee (.cons keyword p .nil) span)
        = some (.integer type.kind c.config.integerKind)
  size : ∀ s callee args span, Intrinsic.ofName? callee.text = some .size →
    c.value? s (.reference callee args span) = none
  suffix : ∀ s standard span suffix n, ¬ suffix.toList.all Char.isDigit →
    (c.analyzeKind s standard span (some suffix)).result = some n →
    ∃ x k, c.tree.denoted? s (Name.ofSpelling suffix span).text = some x
      ∧ (c.tree.symbol x).scalarType? = some ⟨.integer, k⟩
      ∧ (c.tree.symbol x).namedConstant? = some (.integer n k)

variable {c : Context}

/-- Substitution keeps types exactly if every named constant has the declared type. -/
theorem keepsTypes_iff :
  c.KeepsTypes ↔ ∀ s text x d, c.tree.denoted? s text = some x →
    (c.tree.symbol x).namedConstant? = some d → (c.tree.symbol x).scalarType? = some d.type
  := by
  constructor
  · intro h s text x d hx hd
    obtain ⟨y, details, hy, hdetails, hadmits⟩ := h s ⟨text, default⟩ d
      (result_designator_eq_some_iff.mpr ⟨x, hx, hd⟩)
    obtain rfl := Option.some.inj (hx.symm.trans hy)
    exact (Symbol.scalarType?_eq_iff hd).mpr ⟨details, hdetails, hadmits⟩
  · intro h s name d hresult
    obtain ⟨x, hx, hd⟩ := result_designator_eq_some_iff.mp hresult
    obtain ⟨details, hdetails, hadmits⟩ :=
      (Symbol.scalarType?_eq_iff hd).mp (h s name.text x d hx hd)
    exact ⟨x, details, hx, hdetails, hadmits⟩

/-- If substitution keeps types, names stand for constants of their types. -/
theorem KeepsTypes.typedIn (h : c.KeepsTypes) (s : ScopeId) :
  TypedIn s c c
  := by
  constructor
  · rfl
  · intro text
    rfl
  · intro text x d hx hd
    exact ⟨hd, keepsTypes_iff.mp h s text x d hx hd⟩

/-- The kind of a phrase that comes to a constant. -/
theorem value?_kind {s : ScopeId} {callee : Name} {keyword : Option Name} {p : Phrase}
    {span : Span} {d : Constant} (hcallee : Intrinsic.ofName? callee.text = some .kind)
    (hsymbol : c.tree.denoted? s callee.text = none) (hd : c.value? s p = some d) :
  c.value? s (.reference callee (.cons keyword p .nil) span)
    = some (.integer d.kind c.config.integerKind)
  := by
  obtain ⟨e, he, hfold⟩ := Option.bind_eq_some_iff.mp hd
  have hresult : (c.analysis s (.reference callee (.cons keyword p .nil) span)).result
      = some (.reference callee.text none (.cons (keyword.map Name.text) e .nil)) := by
    simp [analysis, analysisOfArgs, hsymbol, hcallee, Analysis.after, Analysis.map,
      Analysis.join, Analysis.pure, he]
  rw [value?, hresult, Option.bind_some, Expr.fold]
  simp only [Expr.Args.fold, Expr.evaluateReference, hcallee, Expr.Args.constants?, hfold]
  rfl

/-- The size of an array is not evaluated. -/
theorem typeOf?_size {s : ScopeId} {callee : Name} {args : Phrase.ArgList} {span : Span}
    (hcallee : Intrinsic.ofName? callee.text = some .size) :
  c.typeOf? s (.reference callee args span) = none
  := by
  rw [typeOf?, hcallee]
  split
  · next hf =>
    cases hf
    cases c.typesOf? s args with
    | none => rfl
    | some types => rfl
  · rfl

/-- Where constants have the types that are declared, phrases mean what is declared. -/
theorem KeepsTypes.readsAsDeclared (h : c.KeepsTypes) :
  c.ReadsAsDeclared
  := by
  constructor
  · intro s p d hd
    apply (h.typedIn s).typeOf?_of_value? hd
  · intro s callee keyword p span d hcallee hsymbol hd
    use d.type, (h.typedIn s).typeOf?_of_value? hd
    rw [d.kind_type]
    apply value?_kind hcallee hsymbol hd
  · intro s callee args span hcallee
    rw [Option.eq_none_iff_forall_ne_some]
    intro d hd
    have htype := (h.typedIn s).typeOf?_of_value? hd
    rw [typeOf?_size hcallee] at htype
    cases htype
  · intro s standard span suffix n hdigits hn
    obtain ⟨hvalue, -⟩ := result_analyzeKind_eq_some_iff.mp hn
    rw [if_neg hdigits, suffixValue?_of_name hdigits] at hvalue
    obtain ⟨x, k, hx, hconstant, -⟩ := hvalue
    exact ⟨x, k, hx, keepsTypes_iff.mp h s _ x _ hx hconstant, hconstant⟩

end Context

end FortranScope
