import FortranScope.Proofs.Guarded.Analysis
import FortranScope.Proofs.Guarded.Folding
import FortranScope.Proofs.Resolution.Parallel

/-!
# Guarded resolution

A resolution goes through the scopes from the global one inward and settles what it finds.  It asks
for the expression of a parameter value, which `*` and `:` do not have, and counts what it settles
in machine words.  In a reachable session nothing of this goes wrong, so a resolution comes to an
end, as look-ups, analysis and folding do.
-/

namespace FortranScope

/-- The number above those that a machine word holds. -/
def wordLimit : Nat := 18446744073709551616

/-- The counts are machine words. -/
def Stats.Countable (stats : Stats) : Prop := stats.resolved < wordLimit ∧ stats.errors < wordLimit

instance (stats : Stats) : Decidable stats.Countable := inferInstanceAs (Decidable (_ ∧ _))

/-- What can be counted together with one more expression can be counted without it. -/
theorem Stats.countable_of_add {stats : Stats} {d : Deferred} (h : (stats.add d).Countable) :
  stats.Countable
  := by
  obtain ⟨hresolved, herrors⟩ := h
  constructor
  · apply Nat.lt_of_le_of_lt _ hresolved
    cases d with
    | resolved e => apply Nat.le_succ
    | _ => apply Nat.le_refl
  · apply Nat.lt_of_le_of_lt _ herrors
    cases d with
    | resolved e => apply Nat.le_refl
    | _ => apply Nat.le_succ

namespace Guarded

/-! ## Parts of a declaration -/

/-- A computation on the session of a pass. -/
def inSession {α : Type} (g : Guarded Session α) : Guarded Pass α :=
  g.within Pass.session fun p r => { p with session := r }

/-- A computation on the tree of a pass. -/
def inPass {α : Type} (g : Guarded Tree α) : Guarded Pass α := inSession (inTree g)

/-- Analyses and folds a deferred expression. -/
def settle (s : ScopeId) : Deferred → Guarded Session Deferred
  | .empty => pure .failed
  | .failed => pure .failed
  | .resolved e => pure (.resolved e)
  | .pending phrase => do
    match ← analyze s phrase with
    | none => pure .failed
    | some e =>
      let e ← fold e
      pure (.resolved e)

/-- Counts an expression that came out as given. -/
def count (d : Deferred) : Guarded Pass Unit := do
  let p ← get
  check (p.stats.add d).Countable .arithmetic
  modify fun p => { p with stats := p.stats.add d }

/-- Settles and counts a deferred expression. -/
def settleCounted (s : ScopeId) (d : Deferred) : Guarded Pass Deferred := do
  let d ← inSession (settle s d)
  count d
  pure d

/-- Settles a deferred expression that was not settled before. -/
def settlePending (s : ScopeId) (d : Deferred) : Guarded Pass Deferred :=
  if d.isUnresolved then settleCounted s d else pure d

/-- Settles the expression of a bound. -/
def settleBound (s : ScopeId) : Extent → Guarded Pass Extent
  | .assumed => pure .assumed
  | .colon => pure .colon
  | .explicit d => do
    let d ← settlePending s d
    pure (.explicit d)

/-- Settles the value of a type parameter, which has to be an expression. -/
def settleExplicit (s : ScopeId) : Extent → Guarded Pass Extent
  | .explicit d => do
    let d ← settleCounted s d
    pure (.explicit d)
  | _ => throw (.defect .valueNotExplicit)

/-- Settles an initial value, if there is one. -/
def settleInit (s : ScopeId) : Option Deferred → Guarded Pass (Option Deferred)
  | none => pure none
  | some init => do
    let init ← settlePending s init
    pure (some init)

/-- Settles the bounds of dimensions. -/
def settleShape (s : ScopeId) : List Dimension → Guarded Pass (List Dimension)
  | [] => pure []
  | dimension :: shape => do
    let lower ← settleBound s dimension.lower
    let upper ← settleBound s dimension.upper
    let rest ← settleShape s shape
    pure (⟨lower, upper⟩ :: rest)

/-- Settles the value of a type parameter that was not settled before. -/
def settleParam (s : ScopeId) (value : Extent) : Guarded Pass Extent :=
  if value.explicit?.any Deferred.isUnresolved then settleExplicit s value else pure value

/-- Settles the values of type parameters. -/
def settleParams (s : ScopeId) :
    List (Option String × Extent) → Guarded Pass (List (Option String × Extent))
  | [] => pure []
  | param :: params => do
    let value ← settleParam s param.2
    let rest ← settleParams s params
    pure ((param.1, value) :: rest)

/-- Settles the details of a declaration. -/
def settleDetails (s : ScopeId) : Details → Guarded Pass Details
  | .object details => do
    let init ← settleInit s details.init
    let shape ← settleShape s details.shape
    pure (.object { details with init := init, shape := shape })
  | .typeParam details => do
    let init ← settleInit s details.init
    pure (.typeParam { details with init := init })
  | details => pure details

/-! ## Declarations, scopes and programs -/

/-- Settles the parameter values of the derived type that a symbol is declared with. -/
def resolveType (x : SymbolId) : Guarded Pass Unit := do
  let y ← inPass (symbol x)
  match y.details.type?.bind DeclType.spec? with
  | none => pure ()
  | some d =>
    let e ← inPass (spec d)
    let params ← settleParams y.owner e.params
    let _ ← inPass (spec d)
    modify fun p => p.modifyTree fun t => t.modifySpec d fun e => { e with params := params }

/-- Takes the details from a symbol, settles them and gives them back. -/
def resolveDetails (x : SymbolId) : Guarded Pass Unit := do
  let y ← inPass (symbol x)
  modify fun p => p.modifyTree fun t => t.setDetails x .unknown
  let details ← settleDetails y.owner y.details
  let _ ← inPass (symbol x)
  modify fun p => p.modifyTree fun t => t.setDetails x details

/-- Settles the declaration of a symbol. -/
def resolveSymbol (x : SymbolId) : Guarded Pass Unit := do
  resolveType x
  resolveDetails x

end Guarded

namespace ScopeId

open Guarded

/-- Settles the declarations of a scope from the oldest one on, and those of the scopes inside. -/
def resolve (s : ScopeId) : Guarded Pass Unit := do
  let q ← inPass (scope s)
  (q.table.values.mergeSort fun x y => x.index ≤ y.index).forM resolveSymbol
  let q ← inPass (scope s)
  q.children.forM fun c => c |>.resolve
partial_fixpoint

end ScopeId

namespace Guarded

/-- Settles the declarations of all scopes. -/
def resolve : Guarded Session Stats :=
  within (fun r => ⟨r, .zero⟩) (fun _ p => p.session) do
    ScopeId.global.resolve
    let p ← get
    pure p.stats

end Guarded

/-! ## Counts only grow -/

namespace Pass

variable {p : Pass} {s : ScopeId}

/-- If the counts after settling an expression are machine words, so were those before. -/
theorem countable_of_settle {d : Deferred} (h : (p.settle s d).2.stats.Countable) :
  p.stats.Countable
  := by
  rw [settle] at h
  split at h
  · apply Stats.countable_of_add h
  · apply h

/-- What can be counted after more and more was settled could be counted at the beginning `p`. -/
theorem parallel_countable (p : Pass) (s : ScopeId) :
  Parallel (fun q q' => q = q' ∧ (q.stats.Countable → p.stats.Countable)) s
  := by
  rintro q _ d ⟨rfl, hq⟩
  exact ⟨rfl, rfl, fun h => hq (countable_of_settle h)⟩

theorem countable_of_settleExtent {e : Extent} (h : (p.settleExtent s e).2.stats.Countable) :
  p.stats.Countable
  := (Parallel.settleExtent (p.parallel_countable s) ⟨rfl, id⟩ e).2.2 h

/-- If the counts after settling the bounds of an array are machine words, so were those before. -/
theorem countable_of_settleShape {shape : List Dimension}
    (h : (p.settleShape s shape).2.stats.Countable) :
  p.stats.Countable
  := (Parallel.settleShape (p.parallel_countable s) ⟨rfl, id⟩ shape).2.2 h

/-- If the counts after settling the parameters of a derived type are machine words, so were those
before. -/
theorem countable_of_settleParams {params : List (Option String × Extent)}
    (h : (p.settleParams s params).2.stats.Countable) :
  p.stats.Countable
  := (Parallel.settleParams (p.parallel_countable s) ⟨rfl, id⟩ params).2.2 h

/-- If the counts after resolving the details of a symbol are machine words, so were those before.
-/
theorem countable_of_resolveDetails {x : SymbolId} (h : (p.resolveDetails x).stats.Countable) :
  p.stats.Countable
  := by
  have hdetails : p.resolveDetails x = p.resolveDetails x
      ∧ ((p.resolveDetails x).stats.Countable → p.stats.Countable) := by
    apply Parallel.resolveDetails (p.parallel_countable _) ⟨rfl, id⟩ rfl rfl rfl
    rintro q _ D ⟨rfl, hq⟩
    exact ⟨rfl, hq⟩
  apply hdetails.2 h

/-- If the counts after resolving any symbols are machine words, so were those before. -/
theorem countable_of_foldl_resolveSymbol {xs : List SymbolId}
    (h : (xs.foldl resolveSymbol p).stats.Countable) :
  p.stats.Countable
  := by
  apply foldl_keeps (I := fun q => q.stats.Countable → p.stats.Countable) _ _ _ id xs h
  · intro q s d hq h
    apply hq (countable_of_settle h)
  · intro q x D hq
    apply hq
  · intro q d params hq
    apply hq

/-- If the counts after resolving any scopes are machine words, so were those before. -/
theorem countable_of_foldl_resolveScope {scopes : List ScopeId}
    (h : (scopes.foldl resolveScope p).stats.Countable) :
  p.stats.Countable
  := by
  rw [foldl_resolveScope] at h
  apply countable_of_foldl_resolveSymbol h

end Pass

namespace Guarded

/-! ## Parts of a declaration are settled -/

/-- A computation on the session of a pass leaves the counts as they are. -/
theorem Ends.inSession {α : Type} {g : Guarded Session α} {p : Pass} {a : α} {r : Session}
    (h : g.Ends p.session a r) :
  (inSession g).Ends p a { p with session := r }
  := by
  rw [Guarded.inSession]
  apply Ends.within
  apply h

/-- A computation that only reads the tree leaves the pass as it is. -/
theorem Ends.inPass {α : Type} {g : Guarded Tree α} {p : Pass} {a : α}
    (h : g.Ends p.tree a p.tree) :
  (inPass g).Ends p a p
  := h.inTree.inSession

/-- Settling an expression comes to an end wherever names can be looked up. -/
theorem ends_settle {r : Session} {s : ScopeId} (h : r.Admits s) (d : Deferred) :
  (settle s d).Ends r (r.settle s d).1 (r.settle s d).2
  := by
  cases d with
  | empty | failed | resolved => apply ends_pure
  | pending phrase =>
    have hanalyze := ends_analyze h phrase
    rw [Session.settle]
    cases hresult : r.analyze s phrase with
    | mk result next =>
      rw [hresult] at hanalyze
      apply hanalyze.bind
      cases result with
      | none => apply ends_pure
      | some e =>
        apply (ends_fold next e).bind
        apply ends_pure

section

variable {p : Pass} {s : ScopeId}

/-- One more expression is counted if the new counts are machine words. -/
theorem ends_count {d : Deferred} (h : (p.stats.add d).Countable) :
  (count d).Ends p () { p with stats := p.stats.add d }
  := by
  apply (ends_get p).bind
  apply (ends_check h _ p).bind
  apply ends_modify

variable (h : p.session.Admits s)

include h

/-- An expression that has to be settled is settled and counted. -/
theorem ends_settleCounted {d : Deferred} (hd : d.isUnresolved = true)
    (hcount : (p.settle s d).2.stats.Countable) :
  (settleCounted s d).Ends p (p.settle s d).1 (p.settle s d).2
  := by
  rw [Pass.settle, if_pos hd] at hcount ⊢
  apply (ends_settle h d).inSession.bind
  apply (ends_count (p := ⟨(p.session.settle s d).2, p.stats⟩) hcount).bind
  apply ends_pure

/-- An expression that was settled before is left as it is, and is not counted again. -/
theorem ends_settlePending {d : Deferred} (hcount : (p.settle s d).2.stats.Countable) :
  (settlePending s d).Ends p (p.settle s d).1 (p.settle s d).2
  := by
  rw [settlePending]
  by_cases hd : d.isUnresolved = true
  · rw [if_pos hd]
    apply ends_settleCounted h hd hcount
  · rw [if_neg hd, Pass.settle, if_neg hd]
    apply ends_pure

/-- A bound is settled if it is an expression. -/
theorem ends_settleBound {e : Extent} (hcount : (p.settleExtent s e).2.stats.Countable) :
  (settleBound s e).Ends p (p.settleExtent s e).1 (p.settleExtent s e).2
  := by
  cases e with
  | assumed | colon => apply ends_pure
  | explicit d =>
    apply (ends_settlePending h hcount).bind
    apply ends_pure

/-- An initial value is settled if there is one. -/
theorem ends_settleInit {init : Option Deferred}
    (hcount : (p.settleInit s init).2.stats.Countable) :
  (settleInit s init).Ends p (p.settleInit s init).1 (p.settleInit s init).2
  := by
  cases init with
  | none => apply ends_pure
  | some d =>
    apply (ends_settlePending h hcount).bind
    apply ends_pure

/-- The bounds of an array are settled dimension by dimension, the lower one before the upper one.
-/
theorem ends_settleShape {shape : List Dimension}
    (hcount : (p.settleShape s shape).2.stats.Countable) :
  (settleShape s shape).Ends p (p.settleShape s shape).1 (p.settleShape s shape).2
  := by
  induction shape generalizing p with
  | nil => apply ends_pure
  | cons dimension shape ih =>
    have hupperCount : ((p.settleExtent s dimension.lower).2.settleExtent s
        dimension.upper).2.stats.Countable :=
      Pass.countable_of_settleShape hcount
    have hlowerCount : (p.settleExtent s dimension.lower).2.stats.Countable :=
      Pass.countable_of_settleExtent hupperCount
    have hlower := h.of_extends (p.extends_settleExtent s dimension.lower)
    have hupper := hlower.of_extends
      ((p.settleExtent s dimension.lower).2.extends_settleExtent s dimension.upper)
    apply (ends_settleBound h hlowerCount).bind
    apply (ends_settleBound hlower hupperCount).bind
    apply (ih hupper hcount).bind
    apply ends_pure

/-- Only an expression that is to be settled is asked for. -/
theorem ends_settleParam {e : Extent} (hcount : (p.settleExtent s e).2.stats.Countable) :
  (settleParam s e).Ends p (p.settleExtent s e).1 (p.settleExtent s e).2
  := by
  cases e with
  | assumed | colon => apply ends_pure
  | explicit d =>
    have hpending : (Extent.explicit d).explicit?.any Deferred.isUnresolved = d.isUnresolved := rfl
    rw [settleParam, hpending]
    by_cases hd : d.isUnresolved = true
    · rw [if_pos hd]
      apply (ends_settleCounted h hd hcount).bind
      apply ends_pure
    · rw [if_neg hd, Pass.settleExtent, Pass.settle, if_neg hd]
      apply ends_pure

/-- The parameters of a derived type are settled in their order. -/
theorem ends_settleParams {params : List (Option String × Extent)}
    (hcount : (p.settleParams s params).2.stats.Countable) :
  (settleParams s params).Ends p (p.settleParams s params).1 (p.settleParams s params).2
  := by
  induction params generalizing p with
  | nil => apply ends_pure
  | cons param params ih =>
    have hvalueCount : (p.settleExtent s param.2).2.stats.Countable :=
      Pass.countable_of_settleParams hcount
    have hvalue := h.of_extends (p.extends_settleExtent s param.2)
    apply (ends_settleParam h hvalueCount).bind
    apply (ih hvalue hcount).bind
    apply ends_pure

/-- The initial value of an object is settled before its bounds, and other details have at most an
initial value. -/
theorem ends_settleDetails {D : Details} (hcount : (p.settleDetails s D).2.stats.Countable) :
  (settleDetails s D).Ends p (p.settleDetails s D).1 (p.settleDetails s D).2
  := by
  cases D with
  | object details =>
    have hinit := h.of_extends (p.extends_settleInit s details.init)
    apply (ends_settleInit h (Pass.countable_of_settleShape hcount)).bind
    apply (ends_settleShape hinit hcount).bind
    apply ends_pure
  | typeParam details =>
    apply (ends_settleInit h hcount).bind
    apply ends_pure
  | _ => apply ends_pure

end

/-- There is nothing to settle in a value without an expression. -/
theorem aborts_settleExplicit {p : Pass} {s : ScopeId} {e : Extent} (he : e.explicit? = none) :
  (settleExplicit s e).Aborts p (.defect .valueNotExplicit)
  := by
  cases e with
  | assumed | colon => apply aborts_throw
  | explicit d => contradiction

/-! ## Declarations are resolved -/

section

variable {p : Pass}

/-- The parameters of a declared type are settled.  The spec is still there when they are written
back. -/
theorem ends_resolveType (h : p.tree.Linked) {x : SymbolId} (hx : p.tree.HasSymbol x)
    (hcount : (p.resolveType x).stats.Countable) :
  (resolveType x).Ends p () (p.resolveType x)
  := by
  apply (ends_symbol hx).inPass.bind
  rw [Pass.resolveType] at hcount ⊢
  cases hd : (p.tree.symbol x).details.type?.bind DeclType.spec? with
  | none => apply ends_pure
  | some d =>
    have hspec : p.tree.HasSpec d := h.specExists x d hd
    have hadmits : p.session.Admits (p.tree.symbol x).owner := ⟨h, h.ownerExists x hx⟩
    have hextends := p.extends_settleParams (p.tree.symbol x).owner (p.tree.spec d).params
    rw [hd] at hcount
    apply (ends_spec hspec).inPass.bind
    apply (ends_settleParams hadmits hcount).bind
    apply (ends_spec (Pass.hasSpec_of_extends hextends hspec)).inPass.bind
    apply ends_modify

/-- The details of a symbol are settled.  The symbol is still there when they are given back. -/
theorem ends_resolveDetails (h : p.tree.Linked) {x : SymbolId} (hx : p.tree.HasSymbol x)
    (hcount : (p.resolveDetails x).stats.Countable) :
  (resolveDetails x).Ends p () (p.resolveDetails x)
  := by
  have hadmits : (p.withDetails x .unknown).session.Admits (p.tree.symbol x).owner := by
    exact ⟨h.hide x, h.ownerExists x hx⟩
  have hextends := (p.withDetails x .unknown).extends_settleDetails (p.tree.symbol x).owner
    (p.tree.symbol x).details
  have hhidden : (p.withDetails x .unknown).tree.HasSymbol x :=
    Nat.lt_of_lt_of_eq hx (p.tree.size_symbols_setDetails x .unknown).symm
  apply (ends_symbol hx).inPass.bind
  apply (ends_modify _ p).bind
  apply (ends_settleDetails hadmits hcount).bind
  apply (ends_symbol (Pass.hasSymbol_of_extends hextends hhidden)).inPass.bind
  apply ends_modify

/-- A symbol is settled: first the parameters of its type, then its details. -/
theorem ends_resolveSymbol (h : p.tree.Linked) {x : SymbolId} (hx : p.tree.HasSymbol x)
    (hcount : (p.resolveSymbol x).stats.Countable) :
  (resolveSymbol x).Ends p () (p.resolveSymbol x)
  := by
  have houtline : (p.resolveType x).tree.outline = p.tree.outline := by
    apply Pass.Settles.outline
    apply Pass.settles_resolveType (A := fun _ => True)
    intros
    trivial
  apply (ends_resolveType h hx (Pass.countable_of_resolveDetails hcount)).bind
  apply ends_resolveDetails (h.of_outline_eq houtline)
    ((Tree.hasSymbol_iff_of_outline_eq houtline x).mpr hx) hcount

/-- One symbol after the other. -/
theorem ends_forM_resolveSymbol (h : p.tree.Linked) {xs : List SymbolId}
    (hxs : ∀ x ∈ xs, p.tree.HasSymbol x)
    (hcount : (xs.foldl Pass.resolveSymbol p).stats.Countable) :
  (xs.forM resolveSymbol).Ends p () (xs.foldl Pass.resolveSymbol p)
  := by
  induction xs generalizing p with
  | nil => apply ends_pure
  | cons x xs ih =>
    obtain ⟨hx, hrest⟩ := List.forall_mem_cons.mp hxs
    have houtline : (p.resolveSymbol x).tree.outline = p.tree.outline :=
      (p.settles_resolveSymbol x).outline
    rw [List.forM]
    apply (ends_resolveSymbol h hx (Pass.countable_of_foldl_resolveSymbol hcount)).bind
    apply ih (h.of_outline_eq houtline) _ hcount
    intro y hy
    apply (Tree.hasSymbol_iff_of_outline_eq houtline y).mpr (hrest y hy)

/-- The symbols of a scope are in the order of their declaration already. -/
theorem ends_scopeResolve_of_children (h : p.tree.Linked) {s : ScopeId} (hs : p.tree.HasScope s)
    (hcount : (p.resolveScope s).stats.Countable) {last : Pass}
    (hchildren : ((p.tree.scope s).children.forM ScopeId.resolve).Ends (p.resolveScope s) () last) :
  s.resolve.Ends p () last
  := by
  have hsorted : ((p.tree.scope s).table.values.mergeSort fun x y => x.index ≤ y.index)
      = (p.tree.scope s).table.values := by
    apply List.mergeSort_of_pairwise
    apply (h.sorted s).imp
    intro x y hxy
    simpa using Nat.le_of_lt hxy
  have houtline : (p.resolveScope s).tree.outline = p.tree.outline :=
    (p.settles_foldl (p.tree.scope s).table.values).outline
  have hs' : (p.resolveScope s).tree.HasScope s := by
    rw [Tree.HasScope, Tree.scopes_eq_of_outline_eq houtline]
    apply hs
  rw [ScopeId.resolve]
  apply (ends_scope hs).inPass.bind
  rw [hsorted]
  apply (ends_forM_resolveSymbol h (fun x hx => h.hasSymbol hx) hcount).bind
  apply (ends_scope hs').inPass.bind
  rw [Tree.scope_eq_of_outline_eq houtline]
  apply hchildren

/-- One scope after the other. -/
theorem ends_forM_resolve {t : Tree} {depth : Nat} {scopes : List ScopeId}
    (hscope : ∀ c ∈ scopes, ∀ q : Pass, q.tree.outline = t.outline →
      ((t.descendants depth c).foldl Pass.resolveScope q).stats.Countable →
        c.resolve.Ends q () ((t.descendants depth c).foldl Pass.resolveScope q))
    (hp : p.tree.outline = t.outline)
    (hcount : ((scopes.flatMap (t.descendants depth)).foldl Pass.resolveScope p).stats.Countable) :
  (scopes.forM ScopeId.resolve).Ends p ()
    ((scopes.flatMap (t.descendants depth)).foldl Pass.resolveScope p)
  := by
  induction scopes generalizing p with
  | nil => apply ends_pure
  | cons c scopes ih =>
    obtain ⟨hc, hrest⟩ := List.forall_mem_cons.mp hscope
    rw [List.flatMap_cons, List.foldl_append] at hcount ⊢
    rw [List.forM]
    apply (hc p hp (Pass.countable_of_foldl_resolveScope hcount)).bind
    apply ih hrest _ hcount
    rw [Pass.foldl_resolveScope, (p.settles_foldl _).outline, hp]

/-- From a scope inward all declarations are settled, if the depth is enough to get to the youngest
scope. -/
theorem ends_scopeResolve {depth : Nat} (h : p.tree.Linked) {s : ScopeId}
    (hs : p.tree.HasScope s) (hdepth : p.tree.scopes.size ≤ s.index + 1 + depth)
    (hcount : ((p.tree.descendants depth s).foldl Pass.resolveScope p).stats.Countable) :
  s.resolve.Ends p () ((p.tree.descendants depth s).foldl Pass.resolveScope p)
  := by
  induction depth generalizing p s with
  | zero =>
    have hnone : (p.tree.scope s).children = [] := by
      apply List.eq_nil_iff_forall_not_mem.mpr
      intro c hc
      obtain ⟨hexists, hparent⟩ := (h.children s c).mp hc
      have hlt := h.index_parent_lt hexists hparent
      exact absurd hexists (by rw [Tree.HasScope]; omega)
    apply ends_scopeResolve_of_children h hs hcount
    rw [hnone]
    apply ends_pure
  | succ depth ih =>
    rw [Tree.descendants, List.foldl_cons] at hcount ⊢
    have houtline : (p.resolveScope s).tree.outline = p.tree.outline :=
      (p.settles_foldl (p.tree.scope s).table.values).outline
    apply ends_scopeResolve_of_children h hs (Pass.countable_of_foldl_resolveScope hcount)
    apply ends_forM_resolve _ houtline hcount
    intro c hc q hq hcount
    obtain ⟨hexists, hparent⟩ := (h.children s c).mp hc
    have hlt := h.index_parent_lt hexists hparent
    rw [← Tree.descendants_eq_of_outline_eq hq] at hcount ⊢
    apply ih (h.of_outline_eq hq) _ _ hcount
    · rw [Tree.HasScope, Tree.scopes_eq_of_outline_eq hq]
      apply hexists
    · rw [Tree.scopes_eq_of_outline_eq hq]
      omega

end

/-- Resolving a session comes to an end if what it counts are machine words. -/
theorem ends_resolve {r : Session} (h : r.context.tree.Linked) (hcount : r.resolve.1.Countable) :
  resolve.Ends r r.resolve.1 r.resolve.2
  := by
  have hscope : ScopeId.global.resolve.Ends ⟨r, .zero⟩ ()
      (r.context.tree.walk.foldl Pass.resolveScope ⟨r, .zero⟩) := by
    apply ends_scopeResolve (p := ⟨r, .zero⟩) h h.root _ hcount
    apply Nat.le_add_left
  have hresult : (get : Guarded Pass Pass).Ends _ _ _ :=
    ends_get (r.context.tree.walk.foldl Pass.resolveScope ⟨r, .zero⟩)
  apply Ends.within
  apply hscope.bind
  apply hresult.bind
  apply ends_pure

end Guarded

namespace Session

/-- What a resolution counts are the deferred expressions that it finds. -/
theorem encard_unresolved {r : Session} (h : r.context.tree.Coherent) :
  {c | r.context.tree.Reaches c ∧ r.context.tree.Unresolved c}.encard
    = (r.resolve.1.resolved + r.resolve.1.errors : Nat)
  := by
  have hsettles := settles_pass_of_coherent h
  have hsettled (c : Cell) (hc : r.context.tree.Reaches c) : ¬ r.pass.tree.Unresolved c := by
    obtain ⟨x, hx, hc⟩ := Tree.reaches_iff.mp hc
    have hvisited : r.pass.tree.SettledAt x :=
      Pass.settledAt_foldl _ (h.mem_visits_iff.mpr hx)
    apply Tree.settledAt_iff.mp hvisited
    apply (Tree.belongs_iff_of_outline_eq hsettles.outline x c).mpr hc
  have htotal := hsettles.encard_total hsettled
  rw [Stats.zero, Nat.add_zero, Nat.cast_zero, add_zero] at htotal
  rw [resolve_eq]
  apply htotal

/-- The counts are machine words if no more than a machine word holds is left to be settled. -/
theorem countable_resolve {r : Session} (h : r.context.tree.Coherent)
    (hlimit : {c | r.context.tree.Reaches c ∧ r.context.tree.Unresolved c}.encard < wordLimit) :
  r.resolve.1.Countable
  := by
  rw [encard_unresolved h, Nat.cast_lt] at hlimit
  rw [Stats.Countable]
  omega

theorem Reachable.linked {r : Session} (hr : r.Reachable) :
  r.context.tree.Linked
  := Tree.linked_of_sound hr.coherent hr.sound

/-- In a session that can be reached, look-ups, analyses and foldings come to an end, with what the
unguarded ones give.  So does a resolution, if there are not more deferred expressions to be settled
than a machine word can count, let alone a memory hold.  It would not do so if it asked for the
parent of the global scope or for the expression of a parameter value without one. -/
theorem ends_of_reachable {r : Session} (hr : r.Reachable) :
  let t := r.context.tree
  (∀ s, t.HasScope s →
    (∀ name, (s.findSymbol name).Ends t (t.findSymbol s name).1 (t.findSymbol s name).2)
      ∧ (∀ span, (s.findScope span).Ends t (t.findScope s span) t)
      ∧ ∀ phrase, (Guarded.analyze s phrase).Ends r (r.analyze s phrase).1 (r.analyze s phrase).2)
    ∧ (∀ e, (Guarded.fold e).Ends r (r.fold e).1 (r.fold e).2)
    ∧ ({c | t.Reaches c ∧ t.Unresolved c}.encard < wordLimit →
      Guarded.resolve.Ends r r.resolve.1 r.resolve.2)
    ∧ (Guarded.parent .global).Aborts t (.defect (.noParent .global))
    ∧ ∀ s p value, value.explicit? = none →
      (Guarded.settleExplicit s value).Aborts p (.defect .valueNotExplicit)
  := by
  refine ⟨?_, Guarded.ends_fold r, ?_, Guarded.aborts_parent_global hr.linked, ?_⟩
  · intro s hs
    refine ⟨Guarded.ends_findSymbol hr.linked hs, Guarded.ends_findScope hr.linked hs, ?_⟩
    apply Guarded.ends_analyze ⟨hr.linked, hs⟩
  · intro hlimit
    apply Guarded.ends_resolve hr.linked (countable_resolve hr.coherent hlimit)
  · intro s p value hvalue
    apply Guarded.aborts_settleExplicit hvalue

/-- A module contains the definition of a derived type, which is in a range of the source.  Its spec
has a parameter value without an expression and one that is to be settled. -/
def assumedParamRun : List Operation :=
  let span : Span := ⟨"a.f90", 0, 9⟩
  [.onTree (.declare .global ⟨"m", span⟩ (.moduleUnit false)),
    .onTree (.makeScope .global .moduleUnit (some ⟨0⟩)),
    .onTree (.makeScope ⟨1⟩ .derivedType none),
    .onTree (.addRange ⟨2⟩ span),
    .onTree (.makeSpec ⟨1⟩ "t"),
    .onTree (.addParam ⟨0⟩ (some "l") .assumed),
    .onTree (.addParam ⟨0⟩ (some "k") (.explicit (.pending (.integer 4 none span)))),
    .onTree (.declare ⟨1⟩ ⟨"a", span⟩ (.object ⟨some (.typeDerived ⟨0⟩), none, []⟩))]

/-- From the definition of the derived type names are looked up in all three scopes. -/
theorem ends_of_reachable_assumedParamRun :
  let r := (initial .standard).run assumedParamRun
  let t := r.context.tree
  (t.HasScope ⟨2⟩ ∧ {c | t.Reaches c ∧ t.Unresolved c}.encard = 1)
    ∧ (∀ name, (ScopeId.findSymbol ⟨2⟩ name).Ends t (t.findSymbol ⟨2⟩ name).1
      (t.findSymbol ⟨2⟩ name).2)
    ∧ (∀ span, (ScopeId.findScope ⟨2⟩ span).Ends t (t.findScope ⟨2⟩ span) t)
    ∧ (∀ phrase, (Guarded.analyze ⟨2⟩ phrase).Ends r (r.analyze ⟨2⟩ phrase).1
      (r.analyze ⟨2⟩ phrase).2)
    ∧ Guarded.resolve.Ends r ⟨1, 0⟩ r.resolve.2
  := by
  have hvalid : (initial .standard).ValidRun assumedParamRun := by decide +kernel
  have hreachable := (Reachable.initial .standard).run hvalid
  have hscope : ((initial .standard).run assumedParamRun).context.tree.HasScope ⟨2⟩ := by
    decide +kernel
  have hresult : ((initial .standard).run assumedParamRun).resolve.1 = ⟨1, 0⟩ := by
    decide +kernel
  have hcount := encard_unresolved hreachable.coherent
  rw [hresult] at hcount
  obtain ⟨hscopes, -, hresolve, -⟩ := ends_of_reachable hreachable
  obtain ⟨hfindSymbol, hfindScope, hanalyze⟩ := hscopes ⟨2⟩ hscope
  refine ⟨⟨hscope, hcount⟩, hfindSymbol, hfindScope, hanalyze, ?_⟩
  rw [← hresult]
  apply hresolve
  rw [hcount]
  decide

end Session

end FortranScope
