import FortranScope.Proofs.Expr.Faults
import FortranScope.Proofs.Guarded.LookUp

/-!
# Guarded analysis

An analysis looks names up and reads the symbols that it finds.  It notes every use and every fault
at once, so that a later part of the phrase is analysed in a session that has changed.  As uses and
messages make no difference to an analysis, it comes to an end with what `Session.analyze` gives.
-/

namespace FortranScope

namespace Session

/-- `r` after an analysis was made part of its context. -/
def record {α : Type} (r : Session) (a : Analysis α) : Session :=
  { r with context := r.context.record a }

/-- `r` with the given uses noted at their symbols. -/
def noteUses (r : Session) (uses : List Use) : Session :=
  r.modifyTree fun t => uses.foldl (fun t u => t.addOccurrence u.symbol .used u.span) t

section

variable {α β γ : Type} (r : Session)

/-- An analysis that only gives a value leaves nothing to record. -/
theorem record_pure (a : α) :
  r.record (.pure a) = r
  := by
  rw [record, Context.record, Analysis.pure, List.foldl_nil, List.append_nil]

/-- Recording a joint analysis records its first part and then its second. -/
theorem record_join (f : α → β → γ) (a : Analysis α) (b : Analysis β) :
  r.record (a.join f b) = (r.record a).record b
  := by
  rw [record, Context.record, Analysis.join, List.foldl_append, ← List.append_assoc]
  rfl

/-- Uses that come before an analysis are noted before it is recorded. -/
theorem record_after (uses : List Use) (a : Analysis α) :
  r.record (a.after uses) = (r.noteUses uses).record a
  := by
  rw [record, Context.record, Analysis.after, List.foldl_append]
  rfl

/-- Recording an analysis keeps the configuration and adds to messages and occurrences only. -/
theorem extends_record (a : Analysis α) :
  r.Extends (r.record a)
  := by
  constructor
  · rfl
  · apply List.prefix_append
  · obtain ⟨gained, hgained⟩ := Context.exists_gains_record _ a
    exact ⟨gained, hgained r.context rfl⟩

/-- Noting uses adds occurrences only. -/
theorem extends_noteUses (uses : List Use) :
  r.Extends (r.noteUses uses)
  := by
  have hrecord := r.extends_record ((Analysis.pure ()).after uses)
  rw [record_after, record_pure] at hrecord
  apply hrecord

end

/-- Names can be looked up in `s`. -/
structure Admits (r : Session) (s : ScopeId) : Prop where
  linked : r.context.tree.Linked
  hasScope : r.context.tree.HasScope s

/-- Names can still be looked up in a scope after a session has gained messages and occurrences. -/
theorem Admits.of_extends {r r' : Session} {s : ScopeId} (h : r.Admits s) (hr : r.Extends r') :
  r'.Admits s
  := by
  obtain ⟨gained, hgains⟩ := hr.tree
  constructor
  · apply h.linked.of_outline_eq hgains.outline_eq
  · rw [Tree.HasScope, Tree.scopes_eq_of_outline_eq hgains.outline_eq]
    apply h.hasScope

end Session

namespace Guarded

/-! ## Names -/

/-- A computation on the tree of a session. -/
def inTree {α : Type} (g : Guarded Tree α) : Guarded Session α :=
  g.within (fun r => r.context.tree) fun r t => r.modifyTree fun _ => t

/-- Reports a fault. -/
def report (cause : Cause) (position : Position) : Guarded Session Unit :=
  modify fun r => { r with context := r.context.say (.error cause position) }

/-- What a designator stands for. -/
def designated (name : Name) (x : SymbolId) : Guarded Session Expr := do
  let y ← inTree (symbol x)
  match y.namedConstant? with
  | some c => pure (.constant c)
  | none => pure (.designator name.text x)

/-- The kind that a suffix stands for. -/
def suffixKind (s : ScopeId) (suffix : String) (span : Span) : Guarded Session (Option Int) := do
  if suffix.toList.all Char.isDigit then pure (Integer.ofText? .kind suffix)
  else
    match ← inTree (denoted s (.ofSpelling suffix span)) with
    | none => pure none
    | some x =>
      let y ← inTree (symbol x)
      pure ((y.namedConstant?.bind Constant.integer?).filter fun n => Integer.Fits .kind n)

/-- The kind of a literal. -/
def literalKind (s : ScopeId) (standard : Int) (span : Span) :
    Option String → Guarded Session (Option Int)
  | none => pure (some standard)
  | some suffix => do
    match (← suffixKind s suffix span).filter (0 < ·) with
    | some kind => pure (some kind)
    | none =>
      report (.invalidKindParameter suffix) span.first
      pure none

/-! ## Phrases -/

mutual

/-- Analyses a phrase, from left to right. -/
def analysis (s : ScopeId) : Phrase → Guarded Session (Option Expr)
  | .integer value kind span => do
    let r ← get
    let kind ← literalKind s r.context.config.integerKind span kind
    pure (kind.map fun k => .constant (.integer value k))
  | .real digits kind span => do
    let r ← get
    let kind ← literalKind s (r.context.config.kindOfReal digits) span kind
    pure (kind.map fun k => .constant (.real digits k))
  | .character value _ => do
    let r ← get
    pure (some (.constant (.character value r.context.config.characterKind)))
  | .logical value _ => do
    let r ← get
    pure (some (.constant (.logical value r.context.config.logicalKind)))
  | .designator name => do
    match ← inTree (denoted s name) with
    | some x =>
      let e ← designated name x
      pure (some e)
    | none =>
      report (.undeclaredName name.text) name.span.first
      pure none
  | .component base name => do
    let base ← analysis s base
    pure (base.map fun b => .component b name.text)
  | .reference callee args _ => do
    let symbol ← inTree (denoted s callee)
    if symbol.isNone && (Intrinsic.ofName? callee.text).isNone then
      report (.undeclaredName callee.text) callee.span.first
      pure none
    else
      let args ← analysisOfArgs s args
      pure (args.map fun a => .reference callee.text symbol a)
  | .parentheses inner _ => do
    let inner ← analysis s inner
    pure (inner.map .parentheses)
  | .unary (.intrinsic operator) operand _ => do
    let operand ← analysis s operand
    pure (operand.map (.unary operator))
  | .unary (.defined word) _ span => do
    report (.unsupportedExpression ("defined operator " ++ word)) span.first
    pure none
  | .binary (.intrinsic operator) left right => do
    let left ← analysis s left
    let right ← analysis s right
    pure (left.bind fun l => right.map (.binary operator l))
  | .binary (.defined word) left _ => do
    report (.unsupportedExpression ("defined operator " ++ word)) left.span.first
    pure none

/-- Analyses all arguments of a reference, even if one of them is at fault. -/
def analysisOfArgs (s : ScopeId) : Phrase.ArgList → Guarded Session (Option Expr.Args)
  | .nil => pure (some .nil)
  | .cons keyword value rest => do
    let value ← analysis s value
    let rest ← analysisOfArgs s rest
    pure (value.bind fun v => rest.map (.cons (keyword.map Name.text) v))

end

/-- Analyses a phrase, whose beginning is noted for the warnings of folding. -/
def analyze (s : ScopeId) (phrase : Phrase) : Guarded Session (Option Expr) := do
  modify fun r => { r with position := phrase.span.first }
  analysis s phrase

/-! ## Analysis comes to an end -/

/-- A computation on the tree comes to an end in a session if it does in the tree of the session. -/
theorem Ends.inTree {α : Type} {g : Guarded Tree α} {r : Session} {a : α} {t : Tree}
    (h : g.Ends r.context.tree a t) :
  (inTree g).Ends r a (r.modifyTree fun _ => t)
  := by
  rw [Guarded.inTree]
  apply Ends.within
  apply h

section

variable {r : Session} {s : ScopeId}

/-- A symbol of the tree can be asked for in a session. -/
theorem ends_inTree_symbol {x : SymbolId} (hx : r.context.tree.HasSymbol x) :
  (inTree (symbol x)).Ends r (r.context.tree.symbol x) r
  := (ends_symbol hx).inTree

/-- A fault is reported at once, as it is recorded by the analysis that finds it. -/
theorem ends_report (cause : Cause) (position : Position) {α : Type} :
  (report cause position).Ends r () (r.record (.fault cause position : Analysis α))
  := ends_modify _ _

variable (h : r.Admits s)

include h

/-- Looking up what a name denotes comes to an end, with one use noted at what it finds. -/
theorem ends_inTree_denoted (name : Name) :
  (inTree (denoted s name)).Ends r (r.context.tree.denoted? s name.text)
    (r.noteUses (useOf name (r.context.tree.denoted? s name.text)))
  := by
  have hdenoted := (ends_denoted h.linked h.hasScope name).inTree
  cases hx : r.context.tree.denoted? s name.text with
  | none =>
    rw [hx] at hdenoted
    apply hdenoted
  | some x =>
    rw [hx] at hdenoted
    apply hdenoted

/-- What a name denotes exists, and its uses do not change what constant it names. -/
theorem ends_inTree_symbol_denoted {text : String} {x : SymbolId}
    (hx : r.context.tree.denoted? s text = some x) (uses : List Use) :
  ∃ y, (inTree (symbol x)).Ends (r.noteUses uses) y (r.noteUses uses)
    ∧ y.namedConstant? = (r.context.tree.symbol x).namedConstant?
  := by
  have hextends := r.extends_noteUses uses
  have hexists : (r.noteUses uses).context.tree.HasSymbol x := by
    obtain ⟨q, -, _, hlocal⟩ := Tree.DenotedIn.exists_local? ⟨text, hx⟩
    obtain ⟨gained, hgains⟩ := hextends.tree
    rw [Tree.hasSymbol_iff_of_outline_eq hgains.outline_eq]
    apply h.linked.hasSymbol_of_local? hlocal
  exact ⟨_, ends_inTree_symbol hexists, (hextends.agrees s).constant text x hx⟩

/-- The kind that a suffix stands for is found, whether it is written in digits or names a constant;
only a name leaves a use behind. -/
theorem ends_suffixKind (suffix : String) (span : Span) :
  (suffixKind s suffix span).Ends r
    (r.context.suffixValue? suffix
      (if suffix.toList.all Char.isDigit then none
        else r.context.tree.denoted? s (Name.ofSpelling suffix span).text))
    (r.noteUses (useOf (.ofSpelling suffix span)
      (if suffix.toList.all Char.isDigit then none
        else r.context.tree.denoted? s (Name.ofSpelling suffix span).text)))
  := by
  rw [suffixKind, Context.suffixValue?]
  by_cases hdigits : suffix.toList.all Char.isDigit
  · rw [if_pos hdigits, if_pos hdigits, if_pos hdigits]
    apply ends_pure
  · rw [if_neg hdigits, if_neg hdigits, if_neg hdigits]
    apply (ends_inTree_denoted h _).bind
    cases hx : r.context.tree.denoted? s (Name.ofSpelling suffix span).text with
    | none => apply ends_pure
    | some x =>
      obtain ⟨y, hy, hconstant⟩ := ends_inTree_symbol_denoted h hx
        (useOf (.ofSpelling suffix span) (some x))
      rw [Option.bind_some, ← hconstant]
      apply hy.bind
      apply ends_pure

/-- The kind of a literal is found, or reported as invalid. -/
theorem ends_literalKind (standard : Int) (span : Span) (suffix : Option String) :
  (literalKind s standard span suffix).Ends r
    (r.context.analyzeKind s standard span suffix).result
    (r.record (r.context.analyzeKind s standard span suffix))
  := by
  cases suffix with
  | none =>
    rw [Context.analyzeKind, Session.record_pure]
    apply ends_pure
  | some suffix =>
    have hsuffix := ends_suffixKind h suffix span
    rw [literalKind, Context.analyzeKind]
    apply hsuffix.bind
    generalize useOf _ _ = uses
    cases r.context.suffixValue? suffix _ with
    | none =>
      rw [Session.record_after]
      apply (ends_report _ _).bind
      apply ends_pure
    | some kind =>
      by_cases hkind : 0 < kind
      · simp only [Option.filter_some, decide_eq_true hkind, if_true]
        rw [if_pos hkind, Session.record_after, Session.record_pure]
        apply ends_pure
      · simp only [Option.filter_some, decide_eq_false hkind]
        rw [if_neg hkind, Session.record_after]
        apply (ends_report _ _).bind
        apply ends_pure

/-- A designator is replaced by its constant, if it names one, after its use was noted. -/
theorem ends_designated {name : Name} {x : SymbolId}
    (hx : r.context.tree.denoted? s name.text = some x) (uses : List Use) :
  (designated name x).Ends (r.noteUses uses) (r.context.tree.designated name.text x)
    (r.noteUses uses)
  := by
  obtain ⟨y, hy, hconstant⟩ := ends_inTree_symbol_denoted h hx uses
  rw [Tree.designated, ← hconstant]
  apply hy.bind
  cases y.namedConstant? with
  | some c => apply ends_pure
  | none => apply ends_pure

end

mutual

/-- The later parts of a phrase are analysed after the earlier ones were recorded. -/
theorem ends_analysis {s : ScopeId} :
    (p : Phrase) → {r : Session} → r.Admits s →
      (analysis s p).Ends r (r.context.analysis s p).result (r.record (r.context.analysis s p))
  | .integer value kind span, r, h => by
    rw [analysis, Context.analysis]
    apply (ends_get r).bind
    apply (ends_literalKind h _ span kind).bind
    apply ends_pure
  | .real digits kind span, r, h => by
    rw [analysis, Context.analysis]
    apply (ends_get r).bind
    apply (ends_literalKind h _ span kind).bind
    apply ends_pure
  | .character value span, r, _ => by
    rw [analysis, Context.analysis, Session.record_pure]
    apply (ends_get r).bind
    apply ends_pure
  | .logical value span, r, _ => by
    rw [analysis, Context.analysis, Session.record_pure]
    apply (ends_get r).bind
    apply ends_pure
  | .designator name, r, h => by
    rw [analysis, Context.analysis]
    apply (ends_inTree_denoted h name).bind
    cases hx : r.context.tree.denoted? s name.text with
    | none =>
      apply (ends_report _ _).bind
      apply ends_pure
    | some x =>
      rw [Session.record_after, Session.record_pure]
      apply (ends_designated h hx _).bind
      apply ends_pure
  | .component base name, r, h => by
    rw [analysis, Context.analysis]
    apply (ends_analysis base h).bind
    apply ends_pure
  | .reference callee args span, r, h => by
    rw [analysis, Context.analysis]
    apply (ends_inTree_denoted h callee).bind
    by_cases hunknown : (r.context.tree.denoted? s callee.text).isNone
        && (Intrinsic.ofName? callee.text).isNone
    · rw [if_pos hunknown, if_pos hunknown]
      obtain ⟨hnone, -⟩ := Bool.and_eq_true_iff.mp hunknown
      rw [Option.isNone_iff_eq_none.mp hnone]
      apply (ends_report _ _).bind
      apply ends_pure
    · rw [if_neg hunknown, if_neg hunknown, Session.record_after]
      have hextends := r.extends_noteUses (useOf callee (r.context.tree.denoted? s callee.text))
      have hargs := ends_analysisOfArgs args (h.of_extends hextends)
      rw [(hextends.agrees s).analysisOfArgs args] at hargs
      apply hargs.bind
      apply ends_pure
  | .parentheses inner span, r, h => by
    rw [analysis, Context.analysis]
    apply (ends_analysis inner h).bind
    apply ends_pure
  | .unary (.intrinsic operator) operand span, r, h => by
    rw [analysis, Context.analysis]
    apply (ends_analysis operand h).bind
    apply ends_pure
  | .unary (.defined word) operand span, r, _ => by
    rw [analysis, Context.analysis]
    apply (ends_report _ _).bind
    apply ends_pure
  | .binary (.intrinsic operator) left right, r, h => by
    have hextends := r.extends_record (r.context.analysis s left)
    have hright := ends_analysis right (h.of_extends hextends)
    rw [(hextends.agrees s).analysis right] at hright
    rw [analysis, Context.analysis, Session.record_join]
    apply (ends_analysis left h).bind
    apply hright.bind
    apply ends_pure
  | .binary (.defined word) left right, r, _ => by
    rw [analysis, Context.analysis]
    apply (ends_report _ _).bind
    apply ends_pure

/-- All arguments of a reference are analysed, each in the session that those before it leave. -/
theorem ends_analysisOfArgs {s : ScopeId} :
    (args : Phrase.ArgList) → {r : Session} → r.Admits s →
      (analysisOfArgs s args).Ends r (r.context.analysisOfArgs s args).result
        (r.record (r.context.analysisOfArgs s args))
  | .nil, r, _ => by
    rw [analysisOfArgs, Context.analysisOfArgs, Session.record_pure]
    apply ends_pure
  | .cons keyword value rest, r, h => by
    have hextends := r.extends_record (r.context.analysis s value)
    have hrest := ends_analysisOfArgs rest (h.of_extends hextends)
    rw [(hextends.agrees s).analysisOfArgs rest] at hrest
    rw [analysisOfArgs, Context.analysisOfArgs, Session.record_join]
    apply (ends_analysis value h).bind
    apply hrest.bind
    apply ends_pure

end

/-- An analysis comes to an end wherever names can be looked up. -/
theorem ends_analyze {r : Session} {s : ScopeId} (h : r.Admits s) (phrase : Phrase) :
  (analyze s phrase).Ends r (r.analyze s phrase).1 (r.analyze s phrase).2
  := by
  have hadmits : Session.Admits { r with position := phrase.span.first } s :=
    ⟨h.linked, h.hasScope⟩
  apply (ends_modify _ r).bind
  apply ends_analysis phrase hadmits

end Guarded

end FortranScope
