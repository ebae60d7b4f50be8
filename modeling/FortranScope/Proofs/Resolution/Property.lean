import FortranScope.Proofs.Resolution.Progress

/-!
# Properties of deferred expressions

If settling an expression with the property `P` gives one with the property `Q`, then settling a
declaration whose expressions have `P` gives one whose expressions have `Q`.  A property that
settling keeps is kept in every cell of a tree, as `Pass.Maintains` says.
-/

namespace FortranScope

/-! ## Declarations -/

/-- The expression of the extent, if it has one, has the property `Q`. -/
def Extent.Holds (Q : Deferred → Prop) (e : Extent) : Prop := ∀ d, e.explicit? = some d → Q d

/-- The expressions of the bounds have the property `Q`. -/
def Dimension.Holds (Q : Deferred → Prop) (dimension : Dimension) : Prop :=
  dimension.lower.Holds Q ∧ dimension.upper.Holds Q

/-- The expressions of the declaration have the property `Q`. -/
def Details.Holds (Q : Deferred → Prop) (D : Details) : Prop :=
  (∀ d, D.init? = some d → Q d) ∧ ∀ dimension ∈ D.shape, dimension.Holds Q

/-- The expressions of the parameter values have the property `Q`. -/
def DerivedTypeSpec.Holds (Q : Deferred → Prop) (e : DerivedTypeSpec) : Prop :=
  ∀ param ∈ e.params, param.2.Holds Q

/-- The expressions in all cells have the property `Q`. -/
def Tree.Holds (Q : Deferred → Prop) (t : Tree) : Prop := ∀ c d, t.cell? c = some d → Q d

section

variable {Q : Deferred → Prop}

/-- A declaration has a property if what is at its places has it. -/
theorem Details.holds_iff {D : Details} :
  D.Holds Q ↔ ∀ place d, D.at? place = some d → Q d
  := by
  constructor
  · rintro ⟨hinit, hshape⟩ place d hd
    cases place with
    | init => apply hinit d hd
    | lower i =>
      obtain ⟨dimension, hdimension, hlower⟩ := Option.bind_eq_some_iff.mp hd
      apply (hshape dimension (List.mem_of_getElem? hdimension)).1 d hlower
    | upper i =>
      obtain ⟨dimension, hdimension, hupper⟩ := Option.bind_eq_some_iff.mp hd
      apply (hshape dimension (List.mem_of_getElem? hdimension)).2 d hupper
  · intro h
    constructor
    · intro d hd
      apply h .init d hd
    · intro dimension hdimension
      obtain ⟨i, hi⟩ := List.mem_iff_getElem?.mp hdimension
      constructor
      · intro d hd
        apply h (.lower i) d
        rw [at?, hi, Option.bind_some, hd]
      · intro d hd
        apply h (.upper i) d
        rw [at?, hi, Option.bind_some, hd]

/-- A spec has a property if what is at its positions has it. -/
theorem DerivedTypeSpec.holds_iff {e : DerivedTypeSpec} :
  e.Holds Q ↔ ∀ position d, e.at? position = some d → Q d
  := by
  constructor
  · intro h position d hd
    obtain ⟨param, hparam, hvalue⟩ := Option.bind_eq_some_iff.mp hd
    apply h param (List.mem_of_getElem? hparam) d hvalue
  · intro h param hparam d hd
    obtain ⟨i, hi⟩ := List.mem_iff_getElem?.mp hparam
    apply h i d
    rw [at?, hi, Option.bind_some, hd]

/-- A tree has a property if its declarations and specs have it. -/
theorem Tree.holds_iff {t : Tree} :
  t.Holds Q ↔ (∀ x, (t.symbol x).details.Holds Q) ∧ ∀ d, (t.spec d).Holds Q
  := by
  constructor
  · intro h
    constructor
    · intro x
      apply Details.holds_iff.mpr
      intro place
      apply h (.declaration x place)
    · intro d
      rw [DerivedTypeSpec.holds_iff]
      intro position
      apply h (.parameter d position)
  · rintro ⟨hdetails, hparams⟩ c
    cases c with
    | declaration x place => apply Details.holds_iff.mp (hdetails x)
    | parameter d position => apply DerivedTypeSpec.holds_iff.mp (hparams d)

/-- Occurrences do not matter to a property of expressions. -/
theorem Tree.Holds.of_gains {t t' : Tree} {gained : SymbolId → List Occurrence} (h : t.Holds Q)
    (hgains : t.Gains t' gained) :
  t'.Holds Q
  := by
  intro c d hd
  apply h c d
  rw [← hgains.cell?, hd]

/-- A tree keeps a property if the new details of a symbol have it. -/
theorem Tree.Holds.setDetails {t : Tree} (h : t.Holds Q) (x : SymbolId) {D : Details}
    (hD : D.Holds Q) :
  (t.setDetails x D).Holds Q
  := by
  obtain ⟨hdetails, hparams⟩ := holds_iff.mp h
  refine holds_iff.mpr ⟨?_, hparams⟩
  intro y
  rw [symbol_setDetails]
  split
  · apply hD
  · apply hdetails

/-- A tree keeps a property if the new parameter values of a spec have it. -/
theorem Tree.Holds.setParams {t : Tree} (h : t.Holds Q) (d : SpecId)
    {params : List (Option String × Extent)} (hnew : ∀ param ∈ params, param.2.Holds Q) :
  (t.setParams d params).Holds Q
  := by
  obtain ⟨hdetails, hparams⟩ := holds_iff.mp h
  refine holds_iff.mpr ⟨hdetails, ?_⟩
  intro e
  rw [spec_setParams]
  split
  · apply hnew
  · apply hparams

end

/-! ## Settling declarations -/

namespace Pass

section

variable {I : Pass → Prop} {P Q : Deferred → Prop} {p : Pass} (s : ScopeId)
  (hextends : ∀ {p q : Pass}, I p → p.session.Extends q.session → I q)
  (hsettle : ∀ {p : Pass} s {d}, I p → P d → Q (p.settle s d).1)

include hsettle

/-- If settling turns `P` into `Q`, it does so for an extent. -/
theorem holds_settleExtent {e : Extent} (hp : I p) (he : e.Holds P) :
  (p.settleExtent s e).1.Holds Q
  := by
  cases e with
  | assumed | colon =>
    intro d hd
    contradiction
  | explicit d =>
    intro d' hd'
    obtain rfl := Option.some.inj hd'
    apply hsettle s hp (he d rfl)

/-- If settling turns `P` into `Q`, it does so for an initial value. -/
theorem holds_settleInit {init : Option Deferred} (hp : I p) (hinit : ∀ d, init = some d → P d) :
  ∀ d, (p.settleInit s init).1 = some d → Q d
  := by
  cases init with
  | none =>
    intro d hd
    contradiction
  | some d =>
    intro d' hd'
    obtain rfl := Option.some.inj hd'
    apply hsettle s hp (hinit d rfl)

include hextends

/-- If settling turns `P` into `Q`, it does so for the bounds of an array. -/
theorem holds_settleShape {shape : List Dimension} (hp : I p)
    (hshape : ∀ dimension ∈ shape, dimension.Holds P) :
  ∀ dimension ∈ (p.settleShape s shape).1, dimension.Holds Q
  := by
  induction shape generalizing p with
  | nil =>
    intro dimension hdimension
    contradiction
  | cons first shape ih =>
    obtain ⟨⟨hlower, hupper⟩, hshape⟩ := List.forall_mem_cons.mp hshape
    have hp' := hextends hp (p.extends_settleExtent s first.lower)
    have hp'' := hextends hp' (extends_settleExtent _ s first.upper)
    rw [settleShape, List.forall_mem_cons]
    constructor
    · constructor
      · apply holds_settleExtent s hsettle hp hlower
      · apply holds_settleExtent s hsettle hp' hupper
    · apply ih hp'' hshape

/-- If settling turns `P` into `Q`, it does so for parameter values. -/
theorem holds_settleParams {params : List (Option String × Extent)} (hp : I p)
    (hparams : ∀ param ∈ params, param.2.Holds P) :
  ∀ param ∈ (p.settleParams s params).1, param.2.Holds Q
  := by
  induction params generalizing p with
  | nil =>
    intro param hparam
    contradiction
  | cons first params ih =>
    obtain ⟨hfirst, hparams⟩ := List.forall_mem_cons.mp hparams
    rw [settleParams, List.forall_mem_cons]
    constructor
    · apply holds_settleExtent s hsettle hp hfirst
    · apply ih (hextends hp (p.extends_settleExtent s first.2)) hparams

/-- If settling turns `P` into `Q`, it does so for a declaration. -/
theorem holds_settleDetails {D : Details} (hp : I p) (hD : D.Holds P) :
  (p.settleDetails s D).1.Holds Q
  := by
  obtain ⟨hinit, hshape⟩ := hD
  cases D with
  | object details =>
    constructor
    · apply holds_settleInit s hsettle hp hinit
    · apply holds_settleShape s hextends hsettle _ hshape
      apply hextends hp (p.extends_settleInit s details.init)
  | typeParam details =>
    constructor
    · apply holds_settleInit s hsettle hp hinit
    · intro dimension hdimension
      contradiction
  | _ =>
    constructor
    · intro d hd
      contradiction
    · intro dimension hdimension
      contradiction

end

/-- Settling parameter values adds messages and occurrences only. -/
theorem extends_settleParams (p : Pass) (s : ScopeId) (params : List (Option String × Extent)) :
  p.session.Extends (p.settleParams s params).2.session
  := by
  induction params generalizing p with
  | nil => apply Session.Extends.refl
  | cons param params ih =>
    apply (p.extends_settleExtent s param.2).trans
    apply ih

/-! ## Settling all cells -/

/-- Where `I` holds, settling keeps the property `P` of expressions, and `I` itself does not
depend on messages and occurrences, nor on which expressions with `P` are in a declaration. -/
structure Maintains (I : Pass → Prop) (P : Deferred → Prop) : Prop where
  settle : ∀ {p : Pass} (s : ScopeId) {d : Deferred}, I p → P d → P (p.settle s d).1
  extends_ : ∀ {p q : Pass}, I p → p.session.Extends q.session → I q
  details : ∀ {p : Pass} (x : SymbolId) {D : Details}, I p → D.Holds P → I (p.withDetails x D)
  params : ∀ {p : Pass} (d : SpecId) {params : List (Option String × Extent)}, I p →
    (∀ param ∈ params, param.2.Holds P) → I (p.withParams d params)

namespace Maintains

variable {I : Pass → Prop} {P : Deferred → Prop} (h : Maintains I P) {p : Pass}

include h

/-- Resolving a type maintains what settling maintains. -/
theorem resolveType (hp : I p) (ht : p.tree.Holds P) (x : SymbolId) :
  I (p.resolveType x) ∧ (p.resolveType x).tree.Holds P
  := by
  rw [Pass.resolveType]
  split
  · exact ⟨hp, ht⟩
  · next d _ =>
    have hextends := p.extends_settleParams (p.tree.symbol x).owner (p.tree.spec d).params
    have hnew := holds_settleParams (p.tree.symbol x).owner h.extends_ h.settle hp
      ((Tree.holds_iff.mp ht).2 d)
    obtain ⟨gained, hgains⟩ := hextends.tree
    constructor
    · apply h.params d (h.extends_ hp hextends) hnew
    · apply (ht.of_gains hgains).setParams d hnew

/-- Resolving a declaration maintains what settling maintains. -/
theorem resolveDetails (hp : I p) (ht : p.tree.Holds P) (x : SymbolId) :
  I (p.resolveDetails x) ∧ (p.resolveDetails x).tree.Holds P
  := by
  have hunknown : Details.unknown.Holds P := by
    apply Details.holds_iff.mpr
    intro place d hd
    cases place <;> contradiction
  have hhidden := h.details x hp hunknown
  have hextends := (p.withDetails x .unknown).extends_settleDetails (p.tree.symbol x).owner
    (p.tree.symbol x).details
  have hnew := holds_settleDetails (p.tree.symbol x).owner h.extends_ h.settle hhidden
    ((Tree.holds_iff.mp ht).1 x)
  obtain ⟨gained, hgains⟩ := hextends.tree
  constructor
  · apply h.details x (h.extends_ hhidden hextends) hnew
  · apply ((ht.setDetails x hunknown).of_gains hgains).setDetails x hnew

/-- A pass over some symbols. -/
theorem foldl (hp : I p) (ht : p.tree.Holds P) (xs : List SymbolId) :
  I (xs.foldl resolveSymbol p) ∧ (xs.foldl resolveSymbol p).tree.Holds P
  := by
  induction xs generalizing p with
  | nil => exact ⟨hp, ht⟩
  | cons x xs ih =>
    obtain ⟨hp', ht'⟩ := h.resolveType hp ht x
    obtain ⟨hp'', ht''⟩ := h.resolveDetails hp' ht' x
    apply ih hp'' ht''

end Maintains

end Pass

end FortranScope
