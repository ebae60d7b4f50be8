import FortranScope.Proofs.Resolution.Property

/-!
# Settled declarations

After a pass went over a declaration nothing in it is left to settle, and a declaration with
nothing left to settle does not change when a pass goes over it.
-/

namespace FortranScope

/-! ## Nothing left to settle -/

/-- There is no expression left to settle in the extent. -/
def Extent.Settled (e : Extent) : Prop := ∀ d, e.explicit? = some d → d.isUnresolved = false

/-- There is no expression left to settle in the bounds of the dimension. -/
def Dimension.Settled (dimension : Dimension) : Prop :=
  dimension.lower.Settled ∧ dimension.upper.Settled

/-- There is no expression left to settle in the declaration. -/
def Details.Settled (D : Details) : Prop :=
  (∀ d, D.init? = some d → d.isUnresolved = false) ∧ ∀ dimension ∈ D.shape, dimension.Settled

/-- There is no expression left to settle in the parameter values. -/
def DerivedTypeSpec.Settled (e : DerivedTypeSpec) : Prop := ∀ param ∈ e.params, param.2.Settled

/-- A declaration is settled if what is at its places is. -/
theorem Details.settled_iff {D : Details} :
  D.Settled ↔ ∀ place d, D.at? place = some d → d.isUnresolved = false
  := Details.holds_iff

/-- A spec is settled if what is at its positions is. -/
theorem DerivedTypeSpec.settled_iff {e : DerivedTypeSpec} :
  e.Settled ↔ ∀ position d, e.at? position = some d → d.isUnresolved = false
  := DerivedTypeSpec.holds_iff

/-- A cell is not unresolved if what it holds, if anything, is settled. -/
theorem Tree.not_unresolved_iff {t : Tree} {c : Cell} :
  ¬ t.Unresolved c ↔ ∀ d, t.cell? c = some d → d.isUnresolved = false
  := by
  simp [Unresolved]

/-- Nothing is left to settle in the declaration of the symbol `x` and in the derived type spec
that `x` is declared with. -/
structure Tree.SettledAt (t : Tree) (x : SymbolId) : Prop where
  details : (t.symbol x).details.Settled
  spec : ∀ d, (t.symbol x).details.spec? = some d → (t.spec d).Settled

/-- Everything is settled at a symbol if no cell that belongs to it is unresolved. -/
theorem Tree.settledAt_iff {t : Tree} {x : SymbolId} :
  t.SettledAt x ↔ ∀ c, t.Belongs x c → ¬ t.Unresolved c
  := by
  constructor
  · rintro ⟨hdetails, hspec⟩ c hc
    rw [not_unresolved_iff]
    cases c with
    | declaration y place =>
      obtain rfl : y = x := hc
      apply Details.settled_iff.mp hdetails
    | parameter d position => apply DerivedTypeSpec.settled_iff.mp (hspec d hc)
  · intro h
    constructor
    · rw [Details.settled_iff]
      intro place
      apply not_unresolved_iff.mp (h (.declaration x place) rfl)
    · intro d hd
      rw [DerivedTypeSpec.settled_iff]
      intro position
      apply not_unresolved_iff.mp (h (.parameter d position) hd)

/-! ## What a pass went over is settled -/

namespace Pass

variable (p : Pass) (s : ScopeId)

/-- Settling parameter values leaves nothing to settle in them. -/
theorem settled_settleParams (params : List (Option String × Extent)) :
  ∀ param ∈ (p.settleParams s params).1, param.2.Settled
  := by
  apply holds_settleParams (I := fun _ => True) (P := fun _ => True)
    (Q := fun d => d.isUnresolved = false) s
    (fun _ _ => trivial) (fun s d _ _ => not_isUnresolved_settle _ s d) trivial
  intro param _ d _
  trivial

/-- Settling a declaration leaves nothing to settle in it. -/
theorem settled_settleDetails (D : Details) :
  (p.settleDetails s D).1.Settled
  := by
  apply holds_settleDetails (I := fun _ => True) (P := fun _ => True)
    (Q := fun d => d.isUnresolved = false) s
    (fun _ _ => trivial) (fun s d _ _ => not_isUnresolved_settle _ s d) trivial
  apply Details.holds_iff.mpr
  intro place d _
  trivial

/-! ## What is settled stays -/

/-- A settled extent is left as it is. -/
theorem settleExtent_of_settled {e : Extent} (h : e.Settled) :
  p.settleExtent s e = (e, p)
  := by
  cases e with
  | assumed | colon => rfl
  | explicit d => rw [settleExtent, settle_of_settled p s (h d rfl)]

/-- A settled initial value is left as it is. -/
theorem settleInit_of_settled (init : Option Deferred)
    (h : ∀ d, init = some d → d.isUnresolved = false) :
  p.settleInit s init = (init, p)
  := by
  cases init with
  | none => rfl
  | some d => rw [settleInit, settle_of_settled p s (h d rfl)]

/-- Settled bounds are left as they are. -/
theorem settleShape_of_settled (shape : List Dimension)
    (h : ∀ dimension ∈ shape, dimension.Settled) :
  p.settleShape s shape = (shape, p)
  := by
  induction shape with
  | nil => rfl
  | cons dimension shape ih =>
    obtain ⟨hfirst, hrest⟩ := List.forall_mem_cons.mp h
    simp only [settleShape, settleExtent_of_settled p s hfirst.1,
      settleExtent_of_settled p s hfirst.2, ih hrest]

/-- Settled parameter values are left as they are. -/
theorem settleParams_of_settled {params : List (Option String × Extent)}
    (h : ∀ param ∈ params, param.2.Settled) :
  p.settleParams s params = (params, p)
  := by
  induction params with
  | nil => rfl
  | cons param params ih =>
    obtain ⟨hfirst, hrest⟩ := List.forall_mem_cons.mp h
    simp only [settleParams, settleExtent_of_settled p s hfirst, ih hrest]

/-- A settled declaration is left as it is. -/
theorem settleDetails_of_settled {D : Details} (h : D.Settled) :
  p.settleDetails s D = (D, p)
  := by
  cases D with
  | object details =>
    simp only [settleDetails, settleInit_of_settled p s details.init h.1,
      settleShape_of_settled p s details.shape h.2]
  | typeParam details =>
    simp only [settleDetails, settleInit_of_settled p s details.init h.1]
  | _ => rfl

/-! ## Symbols -/

variable {p s} {x : SymbolId}

/-- The symbol `x` gets its details back, settled. -/
theorem details_resolveDetails (p : Pass) (x : SymbolId) :
  ((p.resolveDetails x).tree.symbol x).details
    = ((p.withDetails x .unknown).settleDetails (p.tree.symbol x).owner
        (p.tree.symbol x).details).1
  := by
  rw [resolveDetails]
  change (Tree.symbol (Tree.setDetails _ x _) x).details = _
  rw [Tree.symbol_setDetails]
  split
  · rfl
  · next hmissing =>
    have hx : ¬ p.tree.HasSymbol x := by
      intro hx
      have hx' : (p.withDetails x .unknown).tree.HasSymbol x := by
        apply Nat.lt_of_lt_of_eq hx (p.tree.size_symbols_setDetails x .unknown).symm
      apply hmissing
      exact ⟨rfl, hasSymbol_of_extends (extends_settleDetails _ _ _) hx'⟩
    rw [Tree.symbol_eq_default fun h => hmissing ⟨rfl, h⟩, Tree.symbol_eq_default hx]
    rfl

/-- After its type was resolved, the spec of a symbol is settled. -/
theorem settled_resolveType {d : SpecId} (h : (p.tree.symbol x).details.spec? = some d) :
  ((p.resolveType x).tree.spec d).Settled
  := by
  rw [Details.spec?] at h
  rw [resolveType, h]
  change (Tree.spec (Tree.setParams _ d _) d).Settled
  rw [Tree.spec_setParams]
  split
  · apply settled_settleParams
  · next hmissing =>
    have hspec : ∀ {t : Tree}, ¬ t.HasSpec d → (t.spec d).Settled := by
      intro t ht param hparam
      rw [Tree.spec, Array.getElem?_eq_none (Nat.le_of_not_lt ht)] at hparam
      contradiction
    apply hspec
    intro hd
    exact hmissing ⟨rfl, hd⟩

/-- After a symbol was resolved, everything is settled at it. -/
theorem settledAt_resolveSymbol (p : Pass) (x : SymbolId) :
  (p.resolveSymbol x).tree.SettledAt x
  := by
  have hdetails := (p.resolveType x).settles_resolveDetails (x := x)
    (A := fun c => ∃ place, c = .declaration x place) fun place => ⟨place, rfl⟩
  rw [Tree.settledAt_iff]
  intro c hc
  rw [Tree.belongs_iff_of_outline_eq (p.settles_resolveSymbol x).outline] at hc
  cases c with
  | declaration y place =>
    obtain rfl : y = x := hc
    rw [Tree.not_unresolved_iff]
    apply Details.settled_iff.mp
    rw [resolveSymbol, details_resolveDetails]
    apply settled_settleDetails
  | parameter d position =>
    apply hdetails.not_unresolved
    rw [Tree.not_unresolved_iff]
    apply DerivedTypeSpec.settled_iff.mp (settled_resolveType hc)

/-- A symbol where everything is settled is resolved without a change. -/
theorem resolveSymbol_of_settledAt (h : p.tree.SettledAt x) :
  p.resolveSymbol x = p
  := by
  have htype : p.resolveType x = p := by
    rw [resolveType]
    split
    · rfl
    · next d hd =>
      rw [settleParams_of_settled p _ (h.spec d hd)]
      apply withParams_params
  have hdetails : p.resolveDetails x = p := by
    have h := (p.withDetails x .unknown).settleDetails_of_settled (p.tree.symbol x).owner h.details
    rw [resolveDetails]
    change ((p.withDetails x .unknown).settleDetails _ _).2.withDetails x
      ((p.withDetails x .unknown).settleDetails _ _).1 = p
    rw [h, withDetails_withDetails, withDetails_details]
  rw [resolveSymbol, htype, hdetails]

end Pass

end FortranScope
