import FortranScope.Proofs.Expr.Folding
import FortranScope.Proofs.Tree.Association

/-!
# Faults of phrases

Which faults a phrase has depends on two properties of words only: which names are visible, and
which suffixes of literals are kinds.  `Phrase.faults` lists them from left to right, and they
are what the analysis finds.  What is recorded in between makes no name visible and no suffix a
kind, so it does not matter that uses are noted from part to part.
-/

namespace FortranScope

/-! ## Visible names and kinds -/

namespace Tree

variable {t : Tree} {s : ScopeId} {text suffix : String} {x : SymbolId}

/-- The name `text` denotes the symbol `x` in `s`: the definition of a derived type declares it,
or does not and it is found from `s` outward. -/
def Denotes (t : Tree) (s : ScopeId) (text : String) (x : SymbolId) : Prop :=
  (t.scope s).kind = .derivedType ∧ t.local? s text = some x
    ∨ ((t.scope s).kind = .derivedType → t.local? s text = none)
      ∧ ∃ chain, t.Outward s chain ∧ t.FoundAlong text (t.levels chain) x

/-- In a coherent tree the look-up of an expression gives what the name denotes. -/
theorem Coherent.denoted?_eq_some_iff (h : t.Coherent) (hs : t.HasScope s) :
  t.denoted? s text = some x ↔ t.Denotes s text x
  := by
  have hvisible : t.visible? s text = some x
      ↔ ∃ chain, t.Outward s chain ∧ t.FoundAlong text (t.levels chain) x := by
    rw [visible?, associated?_eq_some_iff]
    have houtward := h.outward_hosts hs
    constructor
    · intro hfound
      use t.hosts s
    · rintro ⟨chain, hchain, hfound⟩
      rwa [← houtward.eq hchain]
  rw [denoted?, Denotes, ← hvisible]
  by_cases hkind : (t.scope s).kind = .derivedType
  · cases hlocal : t.local? s text <;> simp [hkind]
  · simp [hkind]

/-- The name `text` is visible from `s`. -/
def Visible (t : Tree) (s : ScopeId) (text : String) : Prop := ∃ x, t.Denotes s text x

/-- The suffix is the name of an object that is visible from `s`, has the attribute
`Attr.parameter` and is resolved to an integer constant that is a kind. -/
def NamesKind (t : Tree) (s : ScopeId) (suffix : String) : Prop :=
  ∃ x details n k, t.Denotes s (Text.foldCase suffix) x ∧ .parameter ∈ (t.symbol x).attrs
    ∧ (t.symbol x).details = .object details
    ∧ details.init = some (.resolved (.constant (.integer n k)))
    ∧ 0 < n ∧ n < Integer.Width.kind.limit

end Tree

/-- The suffix writes a kind in digits. -/
def WritesKind (suffix : String) : Prop :=
  ∃ n, Integer.magnitude? suffix.toList = some n ∧ 0 < n ∧ n < Integer.Width.kind.limit

/-- The suffix is a kind: the digits of one, or a word with other characters that names one. -/
def Tree.IsKind (t : Tree) (s : ScopeId) (suffix : String) : Prop :=
  WritesKind suffix ∨ ¬ suffix.toList.all Char.isDigit ∧ t.NamesKind s suffix

/-! ## The faults of a phrase -/

namespace Phrase

/-- The fault of the literal at `span`, unless its suffix is a kind. -/
def suffixFaults (isKind : String → Prop) [DecidablePred isKind] (span : Span) :
    Option String → List Diagnostic
  | none => []
  | some suffix =>
    if isKind suffix then [] else [.error (.invalidKindParameter suffix) span.first]

/-- The fault of the name, unless it is visible. -/
def nameFaults (visible : String → Prop) [DecidablePred visible] (name : Name) :
    List Diagnostic :=
  if visible name.text then [] else [.error (.undeclaredName name.text) name.span.first]

section

variable (visible isKind : String → Prop) [DecidablePred visible] [DecidablePred isKind]

mutual

/-- The faults of a phrase from left to right, where `visible` tells the visible names and
`isKind` the suffixes that are kinds. -/
def faults : Phrase → List Diagnostic
  | integer _ kind span => suffixFaults isKind span kind
  | real _ kind span => suffixFaults isKind span kind
  | character _ _ => []
  | logical _ _ => []
  | designator name => nameFaults visible name
  | component base _ => base.faults
  | reference callee args _ =>
    if callee.text ∈ Intrinsic.all.map Intrinsic.name ∨ visible callee.text then args.faults
    else [.error (.undeclaredName callee.text) callee.span.first]
  | parentheses inner _ => inner.faults
  | unary (.intrinsic _) operand _ => operand.faults
  | unary (.defined word) operand span =>
    [.error (.unsupportedExpression ("defined operator " ++ word))
      (unary (.defined word) operand span).span.first]
  | binary (.intrinsic _) left right => left.faults ++ right.faults
  | binary (.defined word) left right =>
    [.error (.unsupportedExpression ("defined operator " ++ word))
      (binary (.defined word) left right).span.first]

/-- The faults of arguments from left to right. -/
def ArgList.faults : ArgList → List Diagnostic
  | .nil => []
  | .cons _ value rest => value.faults ++ rest.faults

end

end

end Phrase

/-! ## The analysis finds them -/

namespace Analysis

variable {α β γ : Type}

/-- There is a result exactly if there is no fault. -/
def Exact (a : Analysis α) : Prop := a.result.isSome ↔ a.faults = []

/-- A value is given without a fault. -/
theorem exact_pure (a : α) :
  (pure a).Exact
  := by
  simp [Exact, pure]

/-- A fault comes without a value. -/
theorem exact_fault (cause : Cause) (position : Position) :
  (fault cause position : Analysis α).Exact
  := by
  simp [Exact, fault]

/-- A function of the value changes nothing about the faults. -/
theorem Exact.map {a : Analysis α} (h : a.Exact) (f : α → β) :
  (a.map f).Exact
  := by
  rw [Exact, Analysis.map, Option.isSome_map]
  apply h

/-- A joint analysis has a value exactly if both parts do, and the faults of both. -/
theorem Exact.join {a : Analysis α} {b : Analysis β} (ha : a.Exact) (hb : b.Exact)
    (f : α → β → γ) :
  (a.join f b).Exact
  := by
  rw [Exact] at ha hb
  rw [Exact, Analysis.join, List.append_eq_nil_iff, ← ha, ← hb]
  cases a.result <;> simp

theorem Exact.after {a : Analysis α} (h : a.Exact) (uses : List Use) :
  (a.after uses).Exact
  := h

end Analysis

namespace Context

variable (c : Context) (s : ScopeId)

/-- The kind of a literal is found, or is at fault. -/
theorem exact_analyzeKind (standard : Int) (span : Span) (suffix : Option String) :
  (c.analyzeKind s standard span suffix).Exact
  := by
  cases suffix with
  | none => apply Analysis.exact_pure
  | some suffix =>
    rw [analyzeKind]
    split
    · split
      · apply (Analysis.exact_pure _).after
      · apply (Analysis.exact_fault _ _).after
    · apply (Analysis.exact_fault _ _).after

mutual

/-- A phrase is analysed exactly if it has no faults. -/
theorem exact_analysis : (p : Phrase) → (c.analysis s p).Exact
  | .integer _ _ _ => (c.exact_analyzeKind s _ _ _).map _
  | .real _ _ _ => (c.exact_analyzeKind s _ _ _).map _
  | .character _ _ => Analysis.exact_pure _
  | .logical _ _ => Analysis.exact_pure _
  | .designator name => by
    rw [analysis]
    split
    · apply (Analysis.exact_pure _).after
    · apply Analysis.exact_fault
  | .component base _ => (exact_analysis base).map _
  | .reference callee args _ => by
    rw [analysis]
    split
    · apply Analysis.exact_fault
    · apply ((exact_analysisOfArgs args).map _).after
  | .parentheses inner _ => (exact_analysis inner).map _
  | .unary (.intrinsic _) operand _ => (exact_analysis operand).map _
  | .unary (.defined _) _ _ => Analysis.exact_fault _ _
  | .binary (.intrinsic _) left right => (exact_analysis left).join (exact_analysis right) _
  | .binary (.defined _) _ _ => Analysis.exact_fault _ _

theorem exact_analysisOfArgs : (args : Phrase.ArgList) → (c.analysisOfArgs s args).Exact
  | .nil => Analysis.exact_pure _
  | .cons _ value rest => (exact_analysis value).join (exact_analysisOfArgs rest) _

end

end Context

/-! ## Kinds -/

/-- Digits write an integer without a sign. -/
theorem Integer.ofChars?_of_digits {cs : List Char} (h : cs.all Char.isDigit) :
  ofChars? cs = (magnitude? cs).map Int.ofNat
  := by
  unfold ofChars?
  split
  · cases (List.all_cons ▸ h :)
  · cases (List.all_cons ▸ h :)
  · rfl

namespace Context

variable {c : Context} {s : ScopeId} {suffix : String}

/-- The value of digits is that of the number that they write, if it fits. -/
theorem suffixValue?_of_digits (h : suffix.toList.all Char.isDigit) (symbol : Option SymbolId)
    (n : Int) :
  c.suffixValue? suffix symbol = some n
    ↔ ∃ m : Nat, Integer.magnitude? suffix.toList = some m ∧ n = m ∧ Integer.Fits .kind n
  := by
  rw [suffixValue?, if_pos h, Integer.ofText?, Integer.ofChars?_of_digits h,
    Option.filter_eq_some_iff, Option.map_eq_some_iff]
  constructor
  · rintro ⟨⟨m, hm, rfl⟩, hfits⟩
    exact ⟨m, hm, rfl, of_decide_eq_true hfits⟩
  · rintro ⟨m, hm, rfl, hfits⟩
    exact ⟨⟨m, hm, rfl⟩, decide_eq_true hfits⟩

/-- The value of a name is that of the constant that it names, if it fits. -/
theorem suffixValue?_of_name (h : ¬ suffix.toList.all Char.isDigit) (symbol : Option SymbolId)
    (n : Int) :
  c.suffixValue? suffix symbol = some n
    ↔ ∃ x k, symbol = some x ∧ (c.tree.symbol x).namedConstant? = some (.integer n k)
      ∧ Integer.Fits .kind n
  := by
  have hinteger (constant : Constant) : constant.integer? = some n
      ↔ ∃ k, constant = .integer n k := by
    cases constant <;> simp [Constant.integer?]
  rw [suffixValue?, if_neg h, Option.filter_eq_some_iff]
  simp only [Option.bind_eq_some_iff, hinteger, decide_eq_true_eq]
  constructor
  · rintro ⟨⟨x, hx, _, hconstant, k, rfl⟩, hfits⟩
    use x, k
  · rintro ⟨x, k, hx, hconstant, hfits⟩
    exact ⟨⟨x, hx, _, hconstant, k, rfl⟩, hfits⟩

end Context

/-- The constant that a symbol names, as it stands in the declaration. -/
theorem Symbol.namedConstant?_eq_some_iff {x : Symbol} {constant : Constant} :
  x.namedConstant? = some constant
    ↔ .parameter ∈ x.attrs ∧ ∃ details, x.details = .object details
      ∧ details.init = some (.resolved (.constant constant))
  := by
  rw [namedConstant?]
  cases hdetails : x.details with
  | object details =>
    by_cases hattr : .parameter ∈ x.attrs
    · have hhas : x.hasAttr .parameter = true := decide_eq_true hattr
      simp only [hhas, if_true, Details.object.injEq, exists_eq_left', hattr, true_and]
      constructor
      · intro h
        obtain ⟨init, hinit, hbind⟩ := Option.bind_eq_some_iff.mp h
        obtain ⟨e, he, hconstant⟩ := Option.bind_eq_some_iff.mp hbind
        obtain rfl := Expr.eq_constant_of_constant? hconstant
        cases init with
        | resolved e' => rw [hinit, Option.some.inj he]
        | _ => contradiction
      · intro h
        rw [h]
        rfl
    · have hhas : x.hasAttr .parameter = false := decide_eq_false hattr
      simp [hhas, hattr]
  | _ => simp

namespace Context

variable {c : Context} {s : ScopeId}

/-- A suffix has a positive value exactly if it is a kind. -/
theorem exists_suffixValue?_iff (hc : c.tree.Coherent) (hs : c.tree.HasScope s)
    (suffix : String) :
  (∃ n, c.suffixValue? suffix (if suffix.toList.all Char.isDigit then none
      else c.tree.denoted? s (Text.foldCase suffix)) = some n ∧ 0 < n)
    ↔ c.tree.IsKind s suffix
  := by
  by_cases hdigits : suffix.toList.all Char.isDigit
  · simp only [suffixValue?_of_digits hdigits, Tree.IsKind, hdigits, not_true, false_and, or_false]
    constructor
    · rintro ⟨_, ⟨m, hm, rfl, hfits⟩, hpos⟩
      exact ⟨m, hm, Int.natCast_pos.mp hpos, hfits.2⟩
    · rintro ⟨m, hm, hpos, hlt⟩
      have hfits : Integer.Fits .kind m := ⟨by have := Integer.Width.kind.limit_pos; omega, hlt⟩
      exact ⟨m, ⟨m, hm, rfl, hfits⟩, Int.natCast_pos.mpr hpos⟩
  · have hwrites : ¬ WritesKind suffix := by
      rintro ⟨m, hm, -⟩
      rw [Integer.magnitude?] at hm
      split at hm
      · next h => exact hdigits h.2
      · cases hm
    have hnames : c.tree.IsKind s suffix ↔ c.tree.NamesKind s suffix :=
      (or_iff_right hwrites).trans (and_iff_right hdigits)
    rw [hnames, if_neg hdigits]
    simp only [suffixValue?_of_name hdigits, hc.denoted?_eq_some_iff hs,
      Symbol.namedConstant?_eq_some_iff]
    constructor
    · rintro ⟨n, ⟨x, k, hx, ⟨hattr, details, hdetails, hinit⟩, hfits⟩, hpos⟩
      exact ⟨x, details, n, k, hx, hattr, hdetails, hinit, hpos, hfits.2⟩
    · rintro ⟨x, details, n, k, hx, hattr, hdetails, hinit, hpos, hlt⟩
      have hfits : Integer.Fits .kind n := ⟨by have := Integer.Width.kind.limit_pos; omega, hlt⟩
      exact ⟨n, ⟨x, k, hx, ⟨hattr, details, hdetails, hinit⟩, hfits⟩, hpos⟩

/-- The kind of a literal is at fault exactly if its suffix is no kind. -/
theorem faults_analyzeKind [DecidablePred (c.tree.IsKind s)] (hc : c.tree.Coherent)
    (hs : c.tree.HasScope s) (standard : Int) (span : Span) (suffix : Option String) :
  (c.analyzeKind s standard span suffix).faults
    = Phrase.suffixFaults (c.tree.IsKind s) span suffix
  := by
  cases suffix with
  | none => rfl
  | some suffix =>
    have hkind := exists_suffixValue?_iff hc hs suffix
    rw [Phrase.suffixFaults, analyzeKind]
    simp only [Name.text_ofSpelling]
    split
    · next kind hvalue =>
      simp only [hvalue, Option.some.injEq, exists_eq_left'] at hkind
      split
      · next hpos =>
        rw [if_pos (hkind.mp hpos)]
        rfl
      · next hneg =>
        rw [if_neg fun h => hneg (hkind.mpr h)]
        rfl
    · next hvalue =>
      simp only [hvalue, reduceCtorEq, false_and, exists_false, false_iff] at hkind
      rw [if_neg hkind]
      rfl

/-- A text names no intrinsic function exactly if it is none of their names. -/
theorem isNone_ofName?_iff {text : String} :
  (Intrinsic.ofName? text).isNone ↔ text ∉ Intrinsic.all.map Intrinsic.name
  := by
  simp [Intrinsic.ofName?]

/-- Nothing is found exactly for the names that are not visible. -/
theorem isNone_denoted?_iff (hc : c.tree.Coherent) (hs : c.tree.HasScope s) {text : String} :
  (c.tree.denoted? s text).isNone ↔ ¬ c.tree.Visible s text
  := by
  simp only [Tree.Visible, ← hc.denoted?_eq_some_iff hs]
  cases c.tree.denoted? s text <;> simp

section

variable [DecidablePred (c.tree.Visible s)] [DecidablePred (c.tree.IsKind s)]

mutual

/-- The analysis of a phrase finds the faults of the phrase. -/
theorem faults_analysis (hc : c.tree.Coherent) (hs : c.tree.HasScope s) :
    (p : Phrase) → (c.analysis s p).faults = p.faults (c.tree.Visible s) (c.tree.IsKind s)
  | .integer _ _ _ => faults_analyzeKind hc hs _ _ _
  | .real _ _ _ => faults_analyzeKind hc hs _ _ _
  | .character _ _ => rfl
  | .logical _ _ => rfl
  | .designator name => by
    rw [analysis, Phrase.faults, Phrase.nameFaults]
    split
    · next x hx =>
      rw [if_pos ⟨x, (hc.denoted?_eq_some_iff hs).mp hx⟩]
      rfl
    · next hnone =>
      rw [if_neg ((isNone_denoted?_iff hc hs).mp (Option.isNone_iff_eq_none.mpr hnone))]
      rfl
  | .component base _ => faults_analysis hc hs base
  | .reference callee args _ => by
    simp only [analysis, Phrase.faults, Bool.and_eq_true, isNone_ofName?_iff,
      isNone_denoted?_iff hc hs]
    split
    · next h =>
      rw [if_neg (not_or.mpr h.symm)]
      rfl
    · next h =>
      rw [if_pos (by tauto)]
      apply faults_analysisOfArgs hc hs args
  | .parentheses inner _ => faults_analysis hc hs inner
  | .unary (.intrinsic _) operand _ => faults_analysis hc hs operand
  | .unary (.defined _) _ _ => rfl
  | .binary (.intrinsic _) left right =>
    congrArg₂ (· ++ ·) (faults_analysis hc hs left) (faults_analysis hc hs right)
  | .binary (.defined _) _ _ => rfl

theorem faults_analysisOfArgs (hc : c.tree.Coherent) (hs : c.tree.HasScope s) :
    (args : Phrase.ArgList) →
      (c.analysisOfArgs s args).faults = args.faults (c.tree.Visible s) (c.tree.IsKind s)
  | .nil => rfl
  | .cons _ value rest =>
    congrArg₂ (· ++ ·) (faults_analysis hc hs value) (faults_analysisOfArgs hc hs rest)

end

end

end Context

/-! ## What is recorded does not matter -/

namespace Context

/-- The contexts have the same configuration, and in `s` names have the same meaning and name the
same constants. -/
structure Agrees (s : ScopeId) (c c' : Context) : Prop where
  config : c'.config = c.config
  denoted : ∀ text, c'.tree.denoted? s text = c.tree.denoted? s text
  constant : ∀ text x, c.tree.denoted? s text = some x →
    (c'.tree.symbol x).namedConstant? = (c.tree.symbol x).namedConstant?

namespace Agrees

variable {c c' : Context} {s : ScopeId}

/-- Contexts that agree give a suffix the same value. -/
theorem suffixValue? (h : Agrees s c c') (suffix : String) {symbol : Option SymbolId}
    (hsymbol : ∀ x, symbol = some x → ∃ text, c.tree.denoted? s text = some x) :
  c'.suffixValue? suffix symbol = c.suffixValue? suffix symbol
  := by
  rw [Context.suffixValue?, Context.suffixValue?]
  cases symbol with
  | none => rfl
  | some x =>
    obtain ⟨text, hx⟩ := hsymbol x rfl
    rw [Option.bind_some, Option.bind_some, h.constant text x hx]

/-- Contexts that agree give a literal the same kind, with the same faults and uses. -/
theorem analyzeKind (h : Agrees s c c') (standard : Int) (span : Span) (suffix : Option String) :
  c'.analyzeKind s standard span suffix = c.analyzeKind s standard span suffix
  := by
  cases suffix with
  | none => rfl
  | some suffix =>
    simp only [Context.analyzeKind, h.denoted]
    rw [h.suffixValue?]
    intro x hx
    split at hx
    · contradiction
    · exact ⟨_, hx⟩

/-- Contexts that agree replace a designator by the same constant, or by none. -/
theorem designated (h : Agrees s c c') {text : String} {x : SymbolId}
    (hx : c.tree.denoted? s text = some x) :
  c'.tree.designated text x = c.tree.designated text x
  := by
  rw [Tree.designated, Tree.designated, h.constant text x hx]

mutual

/-- Contexts that agree give a phrase the same analysis. -/
theorem analysis (h : Agrees s c c') : (p : Phrase) → c'.analysis s p = c.analysis s p
  | .integer _ _ _ => by simp only [Context.analysis, h.config, h.analyzeKind]
  | .real _ _ _ => by simp only [Context.analysis, h.config, h.analyzeKind]
  | .character _ _ => by rw [Context.analysis, Context.analysis, h.config]
  | .logical _ _ => by rw [Context.analysis, Context.analysis, h.config]
  | .designator name => by
    rw [Context.analysis, Context.analysis, h.denoted]
    split
    · next x hx => rw [h.designated hx]
    · rfl
  | .component base _ => by rw [Context.analysis, Context.analysis, analysis h base]
  | .reference _ args _ => by simp only [Context.analysis, h.denoted, analysisOfArgs h args]
  | .parentheses inner _ => by rw [Context.analysis, Context.analysis, analysis h inner]
  | .unary (.intrinsic _) operand _ => by
    rw [Context.analysis, Context.analysis, analysis h operand]
  | .unary (.defined _) _ _ => rfl
  | .binary (.intrinsic _) left right => by
    rw [Context.analysis, Context.analysis, analysis h left, analysis h right]
  | .binary (.defined _) _ _ => rfl

theorem analysisOfArgs (h : Agrees s c c') :
    (args : Phrase.ArgList) → c'.analysisOfArgs s args = c.analysisOfArgs s args
  | .nil => rfl
  | .cons _ value rest => by
    rw [Context.analysisOfArgs, Context.analysisOfArgs, analysis h value, analysisOfArgs h rest]

end

end Agrees

end Context

/-- Uses and messages change nothing that an analysis depends on. -/
theorem Session.Extends.agrees {r r' : Session} (h : r.Extends r') (s : ScopeId) :
  Context.Agrees s r.context r'.context
  := by
  obtain ⟨gained, hgains⟩ := h.tree
  constructor
  · apply h.config
  · apply Tree.denoted?_eq_of_outline_eq hgains.outline_eq
  · intro text x _
    rw [hgains.symbol]
    rfl

namespace Session

open scoped Classical in
/-- An analysis reports the faults of the phrase and nothing else, and it gives an expression
exactly if there are none. -/
theorem analyze_reports_faults {r : Session} (hr : r.Reachable) {s : ScopeId}
    (hs : r.context.tree.HasScope s) (p : Phrase) :
  let faults := p.faults (r.context.tree.Visible s) (r.context.tree.IsKind s)
  (r.analyze s p).2.context.log = r.context.log ++ faults
    ∧ ((r.analyze s p).1.isSome ↔ faults = [])
  := by
  have hfaults := Context.faults_analysis hr.coherent hs p
  constructor
  · rw [← hfaults]
    rfl
  · rw [← hfaults]
    apply Context.exact_analysis

/-- There is a named constant `k` and a variable `v`. -/
def namedKindRun : List Operation :=
  let span : Span := ⟨"a.f90", 0, 1⟩
  [.onTree (.declare .global ⟨"k", span⟩
      (.object ⟨none, some (.pending (.integer 2 none span)), []⟩)),
    .onTree (.addAttr ⟨0⟩ .parameter),
    .onTree (.declare .global ⟨"v", span⟩ (.object ⟨none, none, []⟩)),
    .resolve]

open scoped Classical in
/-- In `f(x) + max(1_k, y, 2_v)` the names `f` and `y` and the suffix `v` are reported. -/
theorem analyze_reports_faults_namedKindRun :
  let r := (initial .standard).run namedKindRun
  let word (start stop : Nat) : Span := ⟨"a.f90", start, stop⟩
  let p := Phrase.binary (.intrinsic .add)
    (.reference ⟨"f", word 0 1⟩ (.ofList [(none, .designator ⟨"x", word 2 3⟩)]) (word 0 4))
    (.reference ⟨"max", word 5 8⟩ (.ofList [(none, .integer 1 (some "k") (word 9 12)),
      (none, .designator ⟨"y", word 13 14⟩), (none, .integer 2 (some "v") (word 15 18))])
      (word 5 19))
  let faults := p.faults (r.context.tree.Visible .global) (r.context.tree.IsKind .global)
  r.Reachable ∧ r.context.tree.HasScope .global
    ∧ faults = [.error (.undeclaredName "f") (word 0 1).first,
      .error (.undeclaredName "y") (word 13 14).first,
      .error (.invalidKindParameter "v") (word 15 18).first]
    ∧ (r.analyze .global p).2.context.log = r.context.log ++ faults
    ∧ ((r.analyze .global p).1.isSome ↔ faults = [])
  := by
  intro r word p faults
  have hvalid : (initial .standard).ValidRun namedKindRun := by decide +kernel
  have hr : r.Reachable := (Reachable.initial .standard).run hvalid
  have hs : r.context.tree.HasScope .global := by decide +kernel
  have hfaults := analyze_reports_faults hr hs p
  refine ⟨hr, hs, ?_, hfaults⟩
  have hlog : (r.analyze .global p).2.context.log = r.context.log
      ++ [.error (.undeclaredName "f") (word 0 1).first,
        .error (.undeclaredName "y") (word 13 14).first,
        .error (.invalidKindParameter "v") (word 15 18).first] := by
    decide +kernel
  apply List.append_cancel_left (hfaults.1.symm.trans hlog)

/-- There is a named constant whose name is a digit. -/
def digitNameRun : List Operation :=
  let span : Span := ⟨"a.f90", 0, 1⟩
  [.onTree (.declare .global ⟨"0", span⟩
      (.object ⟨none, some (.pending (.integer 5 none span)), []⟩)),
    .onTree (.addAttr ⟨0⟩ .parameter),
    .resolve]

open scoped Classical in
/-- The suffix of `1_0` is the number zero, which is no kind, and never the name of a constant,
so it is reported although there is a constant of that name. -/
theorem not_reports_faults_digitNameRun :
  let r := (initial .standard).run digitNameRun
  let t := r.context.tree
  let p := Phrase.integer 1 (some "0") ⟨"a.f90", 0, 3⟩
  let faults := p.faults (t.Visible .global)
    fun suffix => WritesKind suffix ∨ t.NamesKind .global suffix
  r.Reachable ∧ t.HasScope .global ∧ faults = []
    ∧ (r.analyze .global p).2.context.log ≠ r.context.log ++ faults
    ∧ ¬ ((r.analyze .global p).1.isSome ↔ faults = [])
  := by
  intro r t p faults
  have hvalid : (initial .standard).ValidRun digitNameRun := by decide +kernel
  have hr : r.Reachable := (Reachable.initial .standard).run hvalid
  have hs : t.HasScope .global := by decide +kernel
  have hnames : t.NamesKind .global "0" := by
    have hdenoted : t.denoted? .global (Text.foldCase "0") = some ⟨0⟩ := by decide +kernel
    refine ⟨⟨0⟩, ⟨none, some (.resolved (.constant (.integer 5 4))), []⟩, 5, 4,
      (hr.coherent.denoted?_eq_some_iff hs).mp hdenoted, ?_⟩
    decide +kernel
  have hfaults : faults = [] := if_pos (Or.inr hnames)
  have hlog : (r.analyze .global p).2.context.log = r.context.log
      ++ [.error (.invalidKindParameter "0") ⟨0, "a.f90"⟩] := by
    decide +kernel
  have hresult : (r.analyze .global p).1 = none := by decide +kernel
  rw [hfaults, hlog, hresult]
  exact ⟨hr, hs, rfl, by simp, by simp⟩

end Session

end FortranScope
