import FortranScope.Proofs.Resolution.Settling

/-!
# Two passes side by side

A relation between two passes that settling an expression keeps, with the same outcome in both, is
kept when both passes go over the same declaration.  What a single pass keeps is the case of a
relation that only a pass and itself are in.
-/

namespace FortranScope.Pass

/-- Related passes settle an expression in `s` with the same outcome, and stay related. -/
def Parallel (R : Pass → Pass → Prop) (s : ScopeId) : Prop :=
  ∀ {p q : Pass} (d : Deferred), R p q →
    (p.settle s d).1 = (q.settle s d).1 ∧ R (p.settle s d).2 (q.settle s d).2

/-- What is settled already makes no difference. -/
theorem parallel_of_unresolved {R : Pass → Pass → Prop} {s : ScopeId}
    (h : ∀ {p q : Pass} (d : Deferred), R p q →
      (p.session.settle s d).1 = (q.session.settle s d).1
        ∧ R ⟨(p.session.settle s d).2, p.stats.add (p.session.settle s d).1⟩
          ⟨(q.session.settle s d).2, q.stats.add (q.session.settle s d).1⟩) :
  Parallel R s
  := by
  intro p q d hR
  rw [settle, settle]
  split
  · apply h d hR
  · exact ⟨rfl, hR⟩

namespace Parallel

variable {R : Pass → Pass → Prop} {s : ScopeId} {p q : Pass} (hR : Parallel R s)

include hR

/-! ## Parts of a declaration -/

/-- Related passes settle an extent alike. -/
theorem settleExtent (h : R p q) (e : Extent) :
  (p.settleExtent s e).1 = (q.settleExtent s e).1
    ∧ R (p.settleExtent s e).2 (q.settleExtent s e).2
  := by
  cases e with
  | assumed | colon => exact ⟨rfl, h⟩
  | explicit d =>
    obtain ⟨heq, hnext⟩ := hR d h
    exact ⟨congrArg Extent.explicit heq, hnext⟩

/-- Related passes settle an initial value alike. -/
theorem settleInit (h : R p q) (init : Option Deferred) :
  (p.settleInit s init).1 = (q.settleInit s init).1
    ∧ R (p.settleInit s init).2 (q.settleInit s init).2
  := by
  cases init with
  | none => exact ⟨rfl, h⟩
  | some d =>
    obtain ⟨heq, hnext⟩ := hR d h
    exact ⟨congrArg some heq, hnext⟩

/-- Related passes settle the bounds of an array alike, one after the other. -/
theorem settleShape (h : R p q) (shape : List Dimension) :
  (p.settleShape s shape).1 = (q.settleShape s shape).1
    ∧ R (p.settleShape s shape).2 (q.settleShape s shape).2
  := by
  induction shape generalizing p q with
  | nil => exact ⟨rfl, h⟩
  | cons dimension shape ih =>
    obtain ⟨hlower, hnext⟩ := hR.settleExtent h dimension.lower
    obtain ⟨hupper, hnext⟩ := hR.settleExtent hnext dimension.upper
    obtain ⟨hrest, hnext⟩ := ih hnext
    simp only [Pass.settleShape]
    rw [hlower, hupper, hrest]
    exact ⟨rfl, hnext⟩

/-- Related passes settle parameter values alike, one after the other. -/
theorem settleParams (h : R p q) (params : List (Option String × Extent)) :
  (p.settleParams s params).1 = (q.settleParams s params).1
    ∧ R (p.settleParams s params).2 (q.settleParams s params).2
  := by
  induction params generalizing p q with
  | nil => exact ⟨rfl, h⟩
  | cons param params ih =>
    obtain ⟨hvalue, hnext⟩ := hR.settleExtent h param.2
    obtain ⟨hrest, hnext⟩ := ih hnext
    simp only [Pass.settleParams]
    rw [hvalue, hrest]
    exact ⟨rfl, hnext⟩

/-- Related passes settle a declaration alike. -/
theorem settleDetails (h : R p q) (D : Details) :
  (p.settleDetails s D).1 = (q.settleDetails s D).1
    ∧ R (p.settleDetails s D).2 (q.settleDetails s D).2
  := by
  cases D with
  | object details =>
    obtain ⟨hinit, hnext⟩ := hR.settleInit h details.init
    obtain ⟨hshape, hnext⟩ := hR.settleShape hnext details.shape
    simp only [Pass.settleDetails]
    rw [hinit, hshape]
    exact ⟨rfl, hnext⟩
  | typeParam details =>
    obtain ⟨hinit, hnext⟩ := hR.settleInit h details.init
    simp only [Pass.settleDetails]
    rw [hinit]
    exact ⟨rfl, hnext⟩
  | _ => exact ⟨rfl, h⟩

/-! ## Declarations -/

variable {x : SymbolId}

/-- The parameter values of the type of `x`, if the passes agree on what this type is and what its
parameters are. -/
theorem resolveType (h : R p q) (howner : (p.tree.symbol x).owner = s)
    (howner' : (q.tree.symbol x).owner = s)
    (hspec : (p.tree.symbol x).details.spec? = (q.tree.symbol x).details.spec?)
    (hparams : ∀ d, (p.tree.symbol x).details.spec? = some d →
      (p.tree.spec d).params = (q.tree.spec d).params)
    (hput : ∀ {p q : Pass} d params, R p q → R (p.withParams d params) (q.withParams d params)) :
  R (p.resolveType x) (q.resolveType x)
  := by
  rw [Pass.resolveType, Pass.resolveType, ← Details.spec?, ← Details.spec?, ← hspec]
  split
  · exact h
  · next d hd =>
    obtain ⟨heq, hnext⟩ := hR.settleParams h (p.tree.spec d).params
    rw [howner, howner', ← hparams d hd]
    simp only [heq]
    apply hput _ _ hnext

/-- The declaration of `x`, if the passes agree on what it is. -/
theorem resolveDetails (h : R p q) (howner : (p.tree.symbol x).owner = s)
    (howner' : (q.tree.symbol x).owner = s)
    (hdetails : (p.tree.symbol x).details = (q.tree.symbol x).details)
    (hput : ∀ {p q : Pass} D, R p q → R (p.withDetails x D) (q.withDetails x D)) :
  R (p.resolveDetails x) (q.resolveDetails x)
  := by
  obtain ⟨heq, hnext⟩ := hR.settleDetails (hput .unknown h) (p.tree.symbol x).details
  rw [Pass.resolveDetails, Pass.resolveDetails, howner, howner', ← hdetails]
  change R (Pass.withDetails _ x ((p.withDetails x .unknown).settleDetails s _).1) _
  rw [heq]
  apply hput _ hnext

end Parallel

/-! ## A single pass -/

/-- What settling expressions and putting declarations back keeps, a pass over some symbols
keeps. -/
theorem foldl_keeps {I : Pass → Prop} (hsettle : ∀ {p : Pass} s d, I p → I (p.settle s d).2)
    (hdetails : ∀ {p : Pass} x D, I p → I (p.withDetails x D))
    (hparams : ∀ {p : Pass} d params, I p → I (p.withParams d params)) {p : Pass} (hp : I p)
    (xs : List SymbolId) :
  I (xs.foldl resolveSymbol p)
  := by
  have hR (s : ScopeId) : Parallel (fun p q => p = q ∧ I p) s := by
    rintro p _ d ⟨rfl, hp⟩
    exact ⟨rfl, rfl, hsettle s d hp⟩
  induction xs generalizing p with
  | nil => exact hp
  | cons x xs ih =>
    have htype : p.resolveType x = p.resolveType x ∧ I (p.resolveType x) := by
      apply Parallel.resolveType (hR _) ⟨rfl, hp⟩ rfl rfl rfl
      · intro d hd
        rfl
      · rintro p _ d params ⟨rfl, hp⟩
        exact ⟨rfl, hparams d params hp⟩
    have hsymbol : p.resolveSymbol x = p.resolveSymbol x ∧ I (p.resolveSymbol x) := by
      apply Parallel.resolveDetails (hR _) htype rfl rfl rfl
      rintro p _ D ⟨rfl, hp⟩
      exact ⟨rfl, hdetails x D hp⟩
    apply ih hsymbol.2

end FortranScope.Pass
