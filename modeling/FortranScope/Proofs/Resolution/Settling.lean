import FortranScope.Proofs.Resolution.Cell
import Mathlib.Logic.Relation
import Mathlib.Tactic.Use

/-!
# A pass settles one cell after the other

`Pass.SettlesAt` is one step of a pass: a deferred expression is settled in its cell and
counted, and besides the analysis adds only messages and occurrences.  The parts of a
declaration are settled outside the tree and put back at the end; with every intermediate
stage of them put back at once the pass is a sequence of such steps.
-/

namespace FortranScope

/-! ## Sessions -/

/-- The session `r'` is `r` after more messages and occurrences. -/
structure Session.Extends (r r' : Session) : Prop where
  config : r'.context.config = r.context.config
  log : r.context.log <+: r'.context.log
  tree : ∃ gained, r.context.tree.Gains r'.context.tree gained

namespace Session

variable {r r' r'' : Session}

theorem Extends.refl (r : Session) :
  r.Extends r
  := by
  constructor
  · rfl
  · apply List.prefix_refl
  · exact ⟨_, .refl _⟩

theorem Extends.trans (h : r.Extends r') (h' : r'.Extends r'') :
  r.Extends r''
  := by
  obtain ⟨gained, hgained⟩ := h.tree
  obtain ⟨gained', hgained'⟩ := h'.tree
  constructor
  · rw [h'.config, h.config]
  · apply h.log.trans h'.log
  · exact ⟨_, hgained.trans hgained'⟩

/-- An analysis adds messages and occurrences only. -/
theorem extends_analyze (r : Session) (s : ScopeId) (phrase : Phrase) :
  r.Extends (r.analyze s phrase).2
  := by
  constructor
  · rfl
  · apply List.prefix_append
  · obtain ⟨gained, hgained⟩ :=
      Context.exists_gains_record _ (r.context.analysis s phrase)
    exact ⟨gained, hgained r.context rfl⟩

/-- Folding adds messages only. -/
theorem extends_fold (r : Session) (e : Expr) :
  r.Extends (r.fold e).2
  := by
  constructor
  · rfl
  · apply List.prefix_append
  · exact ⟨_, .refl _⟩

/-- Settling an expression adds messages and occurrences only. -/
theorem extends_settle (r : Session) (s : ScopeId) (d : Deferred) :
  r.Extends (r.settle s d).2
  := by
  cases d with
  | empty | failed | resolved => apply Extends.refl
  | pending phrase =>
    have hanalyze := r.extends_analyze s phrase
    rw [settle]
    split
    · next next heq =>
      rw [heq] at hanalyze
      apply hanalyze
    · next e next heq =>
      rw [heq] at hanalyze
      apply hanalyze.trans (next.extends_fold e)

/-- What was settled is not unresolved. -/
theorem not_isUnresolved_settle (r : Session) (s : ScopeId) (d : Deferred) :
  (r.settle s d).1.isUnresolved = false
  := by
  cases d with
  | empty | failed | resolved => rfl
  | pending phrase =>
    rw [settle]
    split <;> rfl

end Session

/-! ## Steps of a pass -/

/-- The pass `q` is `p` after the expression in the cell `c` was settled. -/
structure Pass.SettlesAt (p q : Pass) (c : Cell) : Prop where
  config : q.session.context.config = p.session.context.config
  log : p.session.context.log <+: q.session.context.log
  settled : ∃ u gained d d', p.tree.Gains u gained ∧ u.Replaces q.tree c d d'
    ∧ d.isUnresolved = true ∧ d'.isUnresolved = false ∧ q.stats = p.stats.add d'

/-- The pass `q` is `p` after expressions in some of the cells `A` were settled, one after the
other. -/
def Pass.Settles (A : Cell → Prop) : Pass → Pass → Prop :=
  Relation.ReflTransGen fun p q => ∃ c, A c ∧ p.SettlesAt q c

namespace Pass

/-- `p` with the given details for the symbol `x`. -/
def withDetails (p : Pass) (x : SymbolId) (D : Details) : Pass :=
  p.modifyTree fun t => t.setDetails x D

/-- `p` with the given parameter values for the derived type spec `d`. -/
def withParams (p : Pass) (d : SpecId) (params : List (Option String × Extent)) : Pass :=
  p.modifyTree fun t => t.setParams d params

theorem Settles.trans {A : Cell → Prop} {p q r : Pass} (h : p.Settles A q) (h' : q.Settles A r) :
  p.Settles A r
  := Relation.ReflTransGen.trans h h'

theorem Settles.mono {A B : Cell → Prop} (hAB : ∀ c, A c → B c) {p q : Pass}
    (h : p.Settles A q) :
  p.Settles B q
  := by
  induction h with
  | refl => apply Relation.ReflTransGen.refl
  | tail _ hstep ih =>
    obtain ⟨c, hc, hsettles⟩ := hstep
    apply ih.tail
    exact ⟨c, hAB c hc, hsettles⟩

theorem extends_settle (p : Pass) (s : ScopeId) (d : Deferred) :
  p.session.Extends (p.settle s d).2.session
  := by
  rw [settle]
  split
  · apply Session.extends_settle
  · apply Session.Extends.refl

/-- A settled expression is not unresolved. -/
theorem not_isUnresolved_settle (p : Pass) (s : ScopeId) (d : Deferred) :
  (p.settle s d).1.isUnresolved = false
  := by
  rw [settle]
  split
  · apply Session.not_isUnresolved_settle
  · next h => simpa using h

/-- A settled expression is left as it is, and is not counted again. -/
theorem settle_of_settled (p : Pass) (s : ScopeId) {d : Deferred} (h : d.isUnresolved = false) :
  p.settle s d = (d, p)
  := by
  rw [settle, h]
  rfl

/-! ## One expression -/

/-- An expression that `f` puts into a cell is settled there, as what `f` does besides depends
neither on the expression nor on occurrences. -/
theorem settles_settle {A : Cell → Prop} {c : Cell} (hc : A c) (f : Deferred → Tree → Tree)
    (hgains : ∀ d {t t' gained}, t.Gains t' gained → (f d t).Gains (f d t') gained)
    (p : Pass) (s : ScopeId) (d : Deferred)
    (hreplaces : ∀ d' u gained, p.tree.Gains u gained → (f d u).Replaces (f d' u) c d d') :
  (p.modifyTree (f d)).Settles A ((p.settle s d).2.modifyTree (f (p.settle s d).1))
  := by
  by_cases hd : d.isUnresolved = true
  · have hextends := p.session.extends_settle s d
    obtain ⟨gained, hgained⟩ := hextends.tree
    rw [settle, if_pos hd]
    apply Relation.ReflTransGen.single
    use c, hc
    constructor
    · apply hextends.config
    · apply hextends.log
    · use f d (p.session.settle s d).2.context.tree, gained, d, (p.session.settle s d).1
      exact ⟨hgains d hgained, hreplaces _ _ _ hgained, hd,
        Session.not_isUnresolved_settle _ _ _, rfl⟩
  · rw [settle_of_settled p s (by simpa using hd)]
    apply Relation.ReflTransGen.refl

section

variable {A : Cell → Prop} {x : SymbolId} {e : SpecId} (p : Pass) (s : ScopeId)

/-- Symbols are still there after an extension. -/
theorem hasSymbol_of_extends {p q : Pass} (h : p.session.Extends q.session)
    (hx : p.tree.HasSymbol x) :
  q.tree.HasSymbol x
  := by
  obtain ⟨gained, hgained⟩ := h.tree
  exact Nat.lt_of_lt_of_eq hx hgained.size.symm

/-- Specs are still there after an extension. -/
theorem hasSpec_of_extends {p q : Pass} (h : p.session.Extends q.session)
    (he : p.tree.HasSpec e) :
  q.tree.HasSpec e
  := by
  obtain ⟨gained, hgained⟩ := h.tree
  exact Nat.lt_of_lt_of_eq he (congrArg Array.size hgained.specs).symm

/-- An expression at one place of a declaration. -/
theorem settles_place (hA : ∀ place, A (.declaration x place)) (hx : p.tree.HasSymbol x)
    (place : Place) (D : Deferred → Details) (hD : ∀ d d', (D d).Replaces (D d') place d d')
    (d : Deferred) :
  (p.withDetails x (D d)).Settles A ((p.settle s d).2.withDetails x (D (p.settle s d).1))
  := by
  apply settles_settle (hA place) (fun d t => t.setDetails x (D d))
  · intro d t t' gained h
    apply h.setDetails
  · intro d' u gained hgained
    apply Tree.replaces_setDetails
    · exact Nat.lt_of_lt_of_eq hx hgained.size.symm
    · apply hD

/-! ## Extents -/

theorem extends_settleExtent (e : Extent) :
  p.session.Extends (p.settleExtent s e).2.session
  := by
  cases e with
  | assumed | colon => apply Session.Extends.refl
  | explicit d => apply extends_settle

/-- The extent at one place of a declaration. -/
theorem settles_settleExtent (hA : ∀ place, A (.declaration x place)) (hx : p.tree.HasSymbol x)
    (place : Place) (D : Extent → Details)
    (hD : ∀ d d', (D (.explicit d)).Replaces (D (.explicit d')) place d d') (e : Extent) :
  (p.withDetails x (D e)).Settles A
    ((p.settleExtent s e).2.withDetails x (D (p.settleExtent s e).1))
  := by
  cases e with
  | assumed | colon => apply Relation.ReflTransGen.refl
  | explicit d => apply p.settles_place s hA hx place (fun d => D (.explicit d)) hD

/-! ## Declarations -/

theorem extends_settleInit (init : Option Deferred) :
  p.session.Extends (p.settleInit s init).2.session
  := by
  cases init with
  | none => apply Session.Extends.refl
  | some d => apply extends_settle

/-- An initial value is settled in its cell, whatever the declaration around it is. -/
theorem settles_settleInit (hA : ∀ place, A (.declaration x place)) (hx : p.tree.HasSymbol x)
    (D : Option Deferred → Details)
    (hD : ∀ d d', (D (some d)).Replaces (D (some d')) .init d d') (init : Option Deferred) :
  (p.withDetails x (D init)).Settles A
    ((p.settleInit s init).2.withDetails x (D (p.settleInit s init).1))
  := by
  cases init with
  | none => apply Relation.ReflTransGen.refl
  | some d => apply p.settles_place s hA hx .init (fun d => D (some d)) hD

theorem extends_settleShape (shape : List Dimension) :
  p.session.Extends (p.settleShape s shape).2.session
  := by
  induction shape generalizing p with
  | nil => apply Session.Extends.refl
  | cons dimension shape ih =>
    apply (extends_settleExtent _ s dimension.lower).trans
    apply (extends_settleExtent _ s dimension.upper).trans
    apply ih

/-- The bounds of an array, behind the dimensions that are done. -/
theorem settles_settleShape (hA : ∀ place, A (.declaration x place)) (hx : p.tree.HasSymbol x)
    (details : ObjectDetails) (done shape : List Dimension) :
  (p.withDetails x (.object { details with shape := done ++ shape })).Settles A
    ((p.settleShape s shape).2.withDetails x
      (.object { details with shape := done ++ (p.settleShape s shape).1 }))
  := by
  induction shape generalizing p done with
  | nil => apply Relation.ReflTransGen.refl
  | cons dimension shape ih =>
    obtain ⟨lower, upper⟩ := dimension
    have hlower := p.settles_settleExtent s hA hx (.lower done.length)
      (fun e => .object { details with shape := done ++ ⟨e, upper⟩ :: shape })
      (fun d d' => Details.replaces_lower details upper done shape d d') lower
    have hx' := hasSymbol_of_extends (p.extends_settleExtent s lower) hx
    have hupper := (p.settleExtent s lower).2.settles_settleExtent s hA hx' (.upper done.length)
      (fun e => .object { details with
        shape := done ++ ⟨(p.settleExtent s lower).1, e⟩ :: shape })
      (fun d d' => Details.replaces_upper details _ done shape d d') upper
    have hx'' := hasSymbol_of_extends
      ((p.settleExtent s lower).2.extends_settleExtent s upper) hx'
    have hrest := ih ((p.settleExtent s lower).2.settleExtent s upper).2 hx''
      (done ++ [⟨(p.settleExtent s lower).1, ((p.settleExtent s lower).2.settleExtent s upper).1⟩])
    simp only [List.append_assoc, List.singleton_append] at hrest
    apply (hlower.trans hupper).trans hrest

/-- Settling a declaration adds messages and occurrences only. -/
theorem extends_settleDetails (D : Details) :
  p.session.Extends (p.settleDetails s D).2.session
  := by
  cases D with
  | object details =>
    apply (p.extends_settleInit s details.init).trans
    apply extends_settleShape
  | typeParam details => apply extends_settleInit
  | _ => apply Session.Extends.refl

/-- The whole declaration. -/
theorem settles_settleDetails (hA : ∀ place, A (.declaration x place)) (hx : p.tree.HasSymbol x)
    (D : Details) :
  (p.withDetails x D).Settles A
    ((p.settleDetails s D).2.withDetails x (p.settleDetails s D).1)
  := by
  cases D with
  | object details =>
    have hinit := p.settles_settleInit s hA hx (fun init => .object { details with init := init })
      (fun d d' => Details.replaces_init_object details d d') details.init
    have hx' := hasSymbol_of_extends (p.extends_settleInit s details.init) hx
    have hshape := (p.settleInit s details.init).2.settles_settleShape s hA hx'
      { details with init := (p.settleInit s details.init).1 } [] details.shape
    apply hinit.trans hshape
  | typeParam details =>
    apply p.settles_settleInit s hA hx (fun init => .typeParam { details with init := init })
      (fun d d' => Details.replaces_init_typeParam d d' details)
  | _ => apply Relation.ReflTransGen.refl

/-! ## Parameter values -/

/-- The values of type parameters, behind those that are done. -/
theorem settles_settleParams (hA : ∀ position, A (.parameter e position))
    (he : p.tree.HasSpec e) (done params : List (Option String × Extent)) :
  (p.withParams e (done ++ params)).Settles A
    ((p.settleParams s params).2.withParams e (done ++ (p.settleParams s params).1))
  := by
  induction params generalizing p done with
  | nil => apply Relation.ReflTransGen.refl
  | cons param params ih =>
    obtain ⟨name, value⟩ := param
    have hvalue : (p.withParams e (done ++ (name, value) :: params)).Settles A
        ((p.settleExtent s value).2.withParams e
          (done ++ (name, (p.settleExtent s value).1) :: params)) := by
      cases value with
      | assumed | colon => apply Relation.ReflTransGen.refl
      | explicit d =>
        apply settles_settle (hA done.length)
          (fun d t => t.setParams e (done ++ (name, .explicit d) :: params))
        · intro d t t' gained h
          apply h.setParams
        · intro d' u gained hgained
          apply Tree.replaces_setParams
          exact Nat.lt_of_lt_of_eq he (congrArg Array.size hgained.specs).symm
    have he' := hasSpec_of_extends (p.extends_settleExtent s value) he
    have hrest := ih (p.settleExtent s value).2 he' (done ++ [(name, (p.settleExtent s value).1)])
    simp only [List.append_assoc, List.singleton_append] at hrest
    apply hvalue.trans hrest

/-! ## Symbols -/

/-- Setting the details that a symbol has changes nothing. -/
theorem withDetails_details (p : Pass) (x : SymbolId) :
  p.withDetails x (p.tree.symbol x).details = p
  := by
  have h := p.tree.setDetails_details x
  obtain ⟨⟨⟨config, tree, log⟩, position⟩, stats⟩ := p
  exact congrArg (fun t => (⟨⟨⟨config, t, log⟩, position⟩, stats⟩ : Pass)) h

/-- Of details set twice the last ones stay. -/
theorem withDetails_withDetails (p : Pass) (x : SymbolId) (D D' : Details) :
  (p.withDetails x D).withDetails x D' = p.withDetails x D'
  := by
  have h := p.tree.setDetails_setDetails x D D'
  obtain ⟨⟨⟨config, tree, log⟩, position⟩, stats⟩ := p
  exact congrArg (fun t => (⟨⟨⟨config, t, log⟩, position⟩, stats⟩ : Pass)) h

/-- Setting the parameter values that a spec has changes nothing. -/
theorem withParams_params (p : Pass) (e : SpecId) :
  p.withParams e (p.tree.spec e).params = p
  := by
  have h := p.tree.setParams_params e
  obtain ⟨⟨⟨config, tree, log⟩, position⟩, stats⟩ := p
  exact congrArg (fun t => (⟨⟨⟨config, t, log⟩, position⟩, stats⟩ : Pass)) h

/-- A declaration is settled in its own cells, also while its symbol is without details. -/
theorem settles_resolveDetails (hA : ∀ place, A (.declaration x place)) :
  p.Settles A (p.resolveDetails x)
  := by
  by_cases hx : p.tree.HasSymbol x
  · have hx' : (p.withDetails x .unknown).tree.HasSymbol x := by
      apply Nat.lt_of_lt_of_eq hx (p.tree.size_symbols_setDetails x .unknown).symm
    have h := (p.withDetails x .unknown).settles_settleDetails (p.tree.symbol x).owner hA hx'
      (p.tree.symbol x).details
    rw [withDetails_withDetails, withDetails_details] at h
    apply h
  · -- a symbol that does not exist has no details
    have hdetails : (p.tree.symbol x).details = .unknown := by
      rw [Tree.symbol_eq_default hx]
      rfl
    have h := p.withDetails_details x
    have h' := p.withDetails_withDetails x .unknown .unknown
    rw [hdetails] at h
    rw [resolveDetails, hdetails]
    change p.Settles A ((p.withDetails x .unknown).withDetails x .unknown)
    rw [h', h]
    apply Relation.ReflTransGen.refl

/-- A type is resolved in the cells of its derived type spec. -/
theorem settles_resolveType
    (hA : ∀ d position, (p.tree.symbol x).details.spec? = some d → A (.parameter d position)) :
  p.Settles A (p.resolveType x)
  := by
  rw [resolveType]
  split
  · apply Relation.ReflTransGen.refl
  · next d hd =>
    by_cases hspec : p.tree.HasSpec d
    · have h := p.settles_settleParams (p.tree.symbol x).owner (fun i => hA d i hd) hspec []
        (p.tree.spec d).params
      rw [List.nil_append, withParams_params] at h
      apply h
    · -- a spec that does not exist has no parameters
      have hparams : (p.tree.spec d).params = [] := by
        rw [Tree.spec, Array.getElem?_eq_none (Nat.le_of_not_lt hspec)]
        rfl
      have h := p.withParams_params d
      rw [hparams] at h ⊢
      change p.Settles A (p.withParams d [])
      rw [h]
      apply Relation.ReflTransGen.refl

end

end Pass

/-- The cell is in the declaration of the symbol `x` or in the derived type spec that `x` is
declared with. -/
def Tree.Belongs (t : Tree) (x : SymbolId) : Cell → Prop
  | .declaration y _ => y = x
  | .parameter d _ => (t.symbol x).details.spec? = some d

/-- A cell is reached if it belongs to a symbol in some table. -/
theorem Tree.reaches_iff {t : Tree} {c : Cell} :
  t.Reaches c ↔ ∃ x, t.Tabled x ∧ t.Belongs x c
  := by
  cases c with
  | declaration y place =>
    constructor
    · intro hy
      exact ⟨y, hy, rfl⟩
    · rintro ⟨x, hx, rfl⟩
      apply hx
  | parameter d position => rfl

/-- Which cells belong to a symbol is read off the outline. -/
theorem Tree.belongs_iff_of_outline_eq {t t' : Tree} (h : t'.outline = t.outline) (x : SymbolId)
    (c : Cell) :
  t'.Belongs x c ↔ t.Belongs x c
  := by
  cases c with
  | declaration y place => rfl
  | parameter d position =>
    rw [Belongs, Details.spec?_eq_of_outline_eq (outline_details_eq_of_outline_eq h x)]
    rfl

/-- The declaration of a symbol with the parameter values of its type. -/
theorem Pass.settles_resolveSymbol (p : Pass) (x : SymbolId) :
  p.Settles (p.tree.Belongs x) (p.resolveSymbol x)
  := by
  have htype : p.Settles (p.tree.Belongs x) (p.resolveType x) := by
    apply settles_resolveType
    intro d position hd
    apply hd
  have hdetails : (p.resolveType x).Settles (p.tree.Belongs x) (p.resolveSymbol x) := by
    apply settles_resolveDetails
    intro place
    rfl
  apply htype.trans hdetails

end FortranScope
