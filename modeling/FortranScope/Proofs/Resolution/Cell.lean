import FortranScope.Proofs.Tree.Frame
import Mathlib.Tactic.Use

/-!
# Cells

A `Cell` is a place of a tree where a deferred expression may stand: the initial value of an
entity, a bound of its shape, or a parameter value of a derived type spec.  The outline of a
tree is what is left without the deferred expressions and the occurrences, so a tree is made
up of its outline, its cells and its occurrences.  `Tree.Replaces` changes a single cell.
-/

namespace FortranScope

/-! ## Outlines -/

/-- The extent without its expression. -/
def Extent.outline : Extent → Extent
  | explicit _ => explicit .empty
  | e => e

/-- The dimension without its expressions. -/
def Dimension.outline (d : Dimension) : Dimension := ⟨d.lower.outline, d.upper.outline⟩

namespace Details

/-- The details without their deferred expressions. -/
def outline : Details → Details
  | object details =>
    object { details with
      init := details.init.map fun _ => .empty
      shape := details.shape.map Dimension.outline }
  | typeParam details => typeParam { details with init := details.init.map fun _ => .empty }
  | details => details

/-- The outline of a declaration has its type. -/
theorem type?_outline (D : Details) :
  D.outline.type? = D.type?
  := by
  cases D <;> rfl

/-- The outline of an interface body is one, and no other outline is. -/
theorem isInterfaceBody_outline (D : Details) :
  D.outline.isInterfaceBody = D.isInterfaceBody
  := by
  cases D <;> rfl

/-- Declarations with the same outline have the same derived type spec. -/
theorem spec?_eq_of_outline_eq {D D' : Details} (h : D'.outline = D.outline) :
  D'.spec? = D.spec?
  := by
  rw [spec?, spec?, ← D'.type?_outline, ← D.type?_outline, h]

/-- Declarations with the same outline are interface bodies together. -/
theorem isInterfaceBody_eq_of_outline_eq {D D' : Details} (h : D'.outline = D.outline) :
  D'.isInterfaceBody = D.isInterfaceBody
  := by
  rw [← D'.isInterfaceBody_outline, ← D.isInterfaceBody_outline, h]

end Details

/-- The symbol without its deferred expressions and its occurrences. -/
def Symbol.outline (x : Symbol) : Symbol :=
  { x with details := x.details.outline, occurrences := [] }

/-- The derived type spec without the expressions of its parameter values. -/
def DerivedTypeSpec.outline (e : DerivedTypeSpec) : DerivedTypeSpec :=
  { e with params := e.params.map fun param => (param.1, param.2.outline) }

namespace Tree

/-- The tree without its deferred expressions and the occurrences of its symbols. -/
def outline (t : Tree) : Tree :=
  { t with
    symbols := t.symbols.map Symbol.outline
    specs := t.specs.map DerivedTypeSpec.outline }

/-- The outline of a tree has the outlines of its symbols. -/
theorem symbol_outline (t : Tree) (x : SymbolId) :
  t.outline.symbol x = (t.symbol x).outline
  := by
  rw [symbol, symbol, outline, Array.getElem?_map]
  cases t.symbols[x.index]? <;> rfl

/-- The outline of a tree has the outlines of its specs. -/
theorem spec_outline (t : Tree) (d : SpecId) :
  t.outline.spec d = (t.spec d).outline
  := by
  rw [spec, spec, outline, Array.getElem?_map]
  cases t.specs[d.index]? <;> rfl

section

variable {t t' : Tree}

/-- Trees have the same outline if they have the same scopes, and at every identity symbols and
specs with the same outline. -/
theorem outline_ext (hscopes : t'.scopes = t.scopes) (hsymbols : t'.symbols.size = t.symbols.size)
    (hsymbol : ∀ x, (t'.symbol x).outline = (t.symbol x).outline)
    (hspecs : t'.specs.size = t.specs.size)
    (hspec : ∀ d, (t'.spec d).outline = (t.spec d).outline) :
  t'.outline = t.outline
  := by
  have hsymbols' : t'.outline.symbols = t.outline.symbols := by
    apply symbols_ext
    · simpa [outline] using hsymbols
    · intro x
      rw [symbol_outline, symbol_outline, hsymbol]
  have hspecs' : t'.outline.specs = t.outline.specs := by
    apply specs_ext
    · simpa [outline] using hspecs
    · intro d
      rw [spec_outline, spec_outline, hspec]
  rw [outline, outline] at *
  rw [hscopes]
  congr

/-- Trees with the same outline have the same scopes. -/
theorem scopes_eq_of_outline_eq (h : t'.outline = t.outline) :
  t'.scopes = t.scopes
  := by
  have hscopes := congrArg Tree.scopes h
  apply hscopes

/-- Trees with the same outline have the same scope at every identity. -/
theorem scope_eq_of_outline_eq (h : t'.outline = t.outline) (s : ScopeId) :
  t'.scope s = t.scope s
  := by
  rw [scope, scopes_eq_of_outline_eq h]
  rfl

/-- Trees with the same outline have the same number of symbols. -/
theorem size_symbols_eq_of_outline_eq (h : t'.outline = t.outline) :
  t'.symbols.size = t.symbols.size
  := by
  have hsize := congrArg (fun u => u.symbols.size) h
  simpa [outline] using hsize

/-- Trees with the same outline have the same symbols, as far as these exist. -/
theorem hasSymbol_iff_of_outline_eq (h : t'.outline = t.outline) (x : SymbolId) :
  t'.HasSymbol x ↔ t.HasSymbol x
  := by
  rw [HasSymbol, HasSymbol, size_symbols_eq_of_outline_eq h]

/-- Trees with the same outline have the same specs, as far as these exist. -/
theorem hasSpec_iff_of_outline_eq (h : t'.outline = t.outline) (d : SpecId) :
  t'.HasSpec d ↔ t.HasSpec d
  := by
  have hsize := congrArg (fun u => u.specs.size) h
  rw [HasSpec, HasSpec, show t'.specs.size = t.specs.size by simpa [outline] using hsize]

/-- Trees with the same outline have symbols with the same outline. -/
theorem outline_symbol_eq_of_outline_eq (h : t'.outline = t.outline) (x : SymbolId) :
  (t'.symbol x).outline = (t.symbol x).outline
  := by
  rw [← symbol_outline, ← symbol_outline, h]

theorem outline_details_eq_of_outline_eq (h : t'.outline = t.outline) (x : SymbolId) :
  (t'.symbol x).details.outline = (t.symbol x).details.outline
  := congrArg Symbol.details (outline_symbol_eq_of_outline_eq h x)

/-- Trees with the same outline have symbols with the same owners. -/
theorem owner_eq_of_outline_eq (h : t'.outline = t.outline) (x : SymbolId) :
  (t'.symbol x).owner = (t.symbol x).owner
  := by
  have howner := congrArg Symbol.owner (outline_symbol_eq_of_outline_eq h x)
  apply howner

/-- Trees with the same outline have symbols with the same attributes. -/
theorem attrs_eq_of_outline_eq (h : t'.outline = t.outline) (x : SymbolId) :
  (t'.symbol x).attrs = (t.symbol x).attrs
  := by
  have hattrs := congrArg Symbol.attrs (outline_symbol_eq_of_outline_eq h x)
  apply hattrs

/-- Occurrences are no part of an outline. -/
theorem Gains.outline_eq {gained : SymbolId → List Occurrence} (h : t.Gains t' gained) :
  t'.outline = t.outline
  := by
  apply outline_ext h.scopes h.size
  · intro x
    rw [h.symbol]
    rfl
  · rw [h.specs]
  · intro d
    rw [h.spec]

end

end Tree

/-! ## Cells -/

/-- A place in a declaration. -/
inductive Place where
  | init
  | lower (dimension : Nat)
  | upper (dimension : Nat)
deriving DecidableEq

/-- A place in a tree: one in the declaration of a symbol, or the value of the parameter at a
position of a derived type spec. -/
inductive Cell where
  | declaration (x : SymbolId) (place : Place)
  | parameter (d : SpecId) (position : Nat)
deriving DecidableEq

namespace Details

/-- The initial value of a variable, a named constant or a type parameter. -/
def init? : Details → Option Deferred
  | object details => details.init
  | typeParam details => details.init
  | _ => none

/-- The dimensions of an array. -/
def shape : Details → List Dimension
  | object details => details.shape
  | _ => []

/-- The deferred expression at a place. -/
def at? (D : Details) : Place → Option Deferred
  | .init => D.init?
  | .lower i => D.shape[i]?.bind fun dimension => dimension.lower.explicit?
  | .upper i => D.shape[i]?.bind fun dimension => dimension.upper.explicit?

end Details

/-- The value of the parameter at a position, if it is an expression. -/
def DerivedTypeSpec.at? (e : DerivedTypeSpec) (position : Nat) : Option Deferred :=
  e.params[position]?.bind fun param => param.2.explicit?

namespace Tree

/-- The deferred expression in a cell. -/
def cell? (t : Tree) : Cell → Option Deferred
  | .declaration x place => (t.symbol x).details.at? place
  | .parameter d position => (t.spec d).at? position

/-- Some scope gives a name to the symbol `x`. -/
def Tabled (t : Tree) (x : SymbolId) : Prop :=
  ∃ s, t.HasScope s ∧ x ∈ (t.scope s).table.values

/-- The cell belongs to a symbol in the table of some scope, or to the derived type spec that
such a symbol is declared with. -/
def Reaches (t : Tree) : Cell → Prop
  | .declaration x _ => t.Tabled x
  | .parameter d _ => ∃ x, t.Tabled x ∧ (t.symbol x).details.spec? = some d

/-- The cell holds an expression that is not settled. -/
def Unresolved (t : Tree) (c : Cell) : Prop := ∃ d, t.cell? c = some d ∧ d.isUnresolved = true

/-- The cell holds a resolved expression. -/
def Resolved (t : Tree) (c : Cell) : Prop := ∃ e, t.cell? c = some (.resolved e)

/-- The cell holds an expression whose analysis failed. -/
def Failed (t : Tree) (c : Cell) : Prop := t.cell? c = some .failed

section

variable {t t' : Tree}

/-- An unresolved cell holds nothing that is settled. -/
theorem Unresolved.not_exists {c : Cell} (h : t.Unresolved c) {P : Deferred → Prop}
    (hP : ∀ d, P d → d.isUnresolved = false) :
  ¬ ∃ d, t.cell? c = some d ∧ P d
  := by
  rintro ⟨d, hd, hPd⟩
  obtain ⟨e, he, hunresolved⟩ := h
  obtain rfl := Option.some.inj (hd.symm.trans he)
  rw [hP d hPd] at hunresolved
  contradiction

/-- Gaining occurrences changes no cell. -/
theorem Gains.cell? {gained : SymbolId → List Occurrence} (h : t.Gains t' gained) (c : Cell) :
  t'.cell? c = t.cell? c
  := by
  cases c with
  | declaration x place => rw [Tree.cell?, Tree.cell?, h.details]
  | parameter d position => rw [Tree.cell?, Tree.cell?, h.spec]

end

end Tree

/-! ## Nothing but outline, cells and occurrences -/

/-- An extent is known by its outline and its expression. -/
theorem Extent.eq_of_outline_eq {e e' : Extent} (houtline : e'.outline = e.outline)
    (hexplicit : e'.explicit? = e.explicit?) :
  e' = e
  := by
  cases e <;> cases e' <;> simp_all [outline, explicit?]

/-- Lists are equal if their images under `f` are and `f` tells apart what stands at the same
position. -/
theorem list_eq_of_map_eq {α β : Type} {xs xs' : List α} {f : α → β}
    (hmap : xs'.map f = xs.map f)
    (heq : ∀ (i : Nat) a a', xs[i]? = some a → xs'[i]? = some a' → f a' = f a → a' = a) :
  xs' = xs
  := by
  apply List.ext_getElem?
  intro i
  have hf : xs'[i]?.map f = xs[i]?.map f := by
    rw [← List.getElem?_map, ← List.getElem?_map, hmap]
  cases hx : xs[i]? with
  | none => simpa [hx] using hf
  | some a =>
    cases hx' : xs'[i]? with
    | none => simp [hx, hx'] at hf
    | some a' =>
      rw [hx, hx'] at hf
      rw [heq i a a' hx hx' (Option.some.inj hf)]

/-- A declaration is known by its outline and the expressions at its places. -/
theorem Details.eq_of_outline_eq {D D' : Details} (houtline : D'.outline = D.outline)
    (hat : ∀ place, D'.at? place = D.at? place) :
  D' = D
  := by
  have hinit := hat .init
  cases D with
  | object details =>
    cases D' with
    | object details' =>
      obtain ⟨type, init, shape⟩ := details
      obtain ⟨type', init', shape'⟩ := details'
      simp only [outline, object.injEq, ObjectDetails.mk.injEq] at houtline
      obtain rfl : init' = init := hinit
      have hshape : shape' = shape := by
        apply list_eq_of_map_eq houtline.2.2
        intro i d d' hd hd' hdd'
        obtain ⟨lower, upper⟩ := d
        obtain ⟨lower', upper'⟩ := d'
        obtain ⟨hlower, hupper⟩ := Dimension.mk.inj hdd'
        have hlowerAt := hat (.lower i)
        have hupperAt := hat (.upper i)
        simp only [at?, Details.shape, hd, hd', Option.bind_some] at hlowerAt hupperAt
        obtain rfl : lower' = lower := Extent.eq_of_outline_eq hlower hlowerAt
        obtain rfl : upper' = upper := Extent.eq_of_outline_eq hupper hupperAt
        rfl
      rw [houtline.1, hshape]
    | _ => contradiction
  | typeParam details =>
    cases D' with
    | typeParam details' =>
      obtain ⟨role, type, init⟩ := details
      obtain ⟨role', type', init'⟩ := details'
      obtain rfl : init' = init := hinit
      simp_all [outline]
    | _ => contradiction
  | _ => cases D' <;> simp_all [outline]

/-- A spec is known by its outline and the expressions of its parameters. -/
theorem DerivedTypeSpec.eq_of_outline_eq {e e' : DerivedTypeSpec}
    (houtline : e'.outline = e.outline) (hat : ∀ position, e'.at? position = e.at? position) :
  e' = e
  := by
  obtain ⟨name, scope, params⟩ := e
  obtain ⟨name', scope', params'⟩ := e'
  obtain ⟨rfl, rfl, hparams⟩ := DerivedTypeSpec.mk.inj houtline
  have hparams : params' = params := by
    apply list_eq_of_map_eq hparams
    intro i param param' hparam hparam' heq
    obtain ⟨hname, hvalue⟩ := Prod.mk.inj heq
    have hvalueAt := hat i
    simp only [at?, hparam, hparam', Option.bind_some] at hvalueAt
    exact Prod.ext hname (Extent.eq_of_outline_eq hvalue hvalueAt)
  rw [hparams]

/-- A tree is determined by its outline, the expressions in its cells and the occurrences of its
symbols. -/
theorem Tree.eq_of_outline_eq {t t' : Tree} (houtline : t'.outline = t.outline)
    (hcell : ∀ c, t'.cell? c = t.cell? c)
    (hoccurrences : ∀ x, (t'.symbol x).occurrences = (t.symbol x).occurrences) :
  t' = t
  := by
  have hsymbols : t'.symbols = t.symbols := by
    apply symbols_ext (size_symbols_eq_of_outline_eq houtline)
    intro x
    have hdetails : (t'.symbol x).details = (t.symbol x).details := by
      apply Details.eq_of_outline_eq (outline_details_eq_of_outline_eq houtline x)
      intro place
      apply hcell (.declaration x place)
    have hsymbol := outline_symbol_eq_of_outline_eq houtline x
    rw [Symbol.outline, Symbol.outline, Symbol.mk.injEq] at hsymbol
    rw [Symbol.mk.injEq]
    simp_all
  have hspecs : t'.specs = t.specs := by
    apply specs_ext
    · simpa [outline] using congrArg (fun u => u.specs.size) houtline
    · intro d
      apply DerivedTypeSpec.eq_of_outline_eq
      · rw [← spec_outline, ← spec_outline, houtline]
      · intro position
        apply hcell (.parameter d position)
  have hscopes := scopes_eq_of_outline_eq houtline
  obtain ⟨scopes, symbols, specs⟩ := t
  obtain ⟨scopes', symbols', specs'⟩ := t'
  exact Tree.mk.injEq .. |>.mpr ⟨hscopes, hsymbols, hspecs⟩

/-! ## Replacing one expression -/

/-- `D'` is `D` with `d'` for `d` at one place. -/
structure Details.Replaces (D D' : Details) (place : Place) (d d' : Deferred) : Prop where
  outline : D'.outline = D.outline
  before : D.at? place = some d
  after : D'.at? place = some d'
  others : ∀ other, other ≠ place → D'.at? other = D.at? other

/-- `t'` is `t` with `d'` for `d` in one cell. -/
structure Tree.Replaces (t t' : Tree) (c : Cell) (d d' : Deferred) : Prop where
  outline : t'.outline = t.outline
  occurrences : ∀ x, (t'.symbol x).occurrences = (t.symbol x).occurrences
  before : t.cell? c = some d
  after : t'.cell? c = some d'
  others : ∀ other, other ≠ c → t'.cell? other = t.cell? other

namespace Details

variable (details : ObjectDetails) (lower upper : Extent) (done rest : List Dimension)
  (d d' : Deferred)

/-- The initial value of an object is replaced at one place. -/
theorem replaces_init_object :
  (object { details with init := some d }).Replaces (object { details with init := some d' })
    .init d d'
  := by
  constructor
  · rfl
  · rfl
  · rfl
  · intro other hother
    cases other with
    | init => exact absurd rfl hother
    | lower i => rfl
    | upper i => rfl

/-- The initial value of a type parameter is replaced at one place. -/
theorem replaces_init_typeParam (details : TypeParamDetails) :
  (typeParam { details with init := some d }).Replaces
    (typeParam { details with init := some d' }) .init d d'
  := by
  constructor
  · rfl
  · rfl
  · rfl
  · intro other hother
    cases other with
    | init => exact absurd rfl hother
    | lower i => rfl
    | upper i => rfl

/-- Beside position `i` a list does not depend on its element there. -/
theorem getElem?_append_cons_congr {α β : Type} (done rest : List α) {a a' : α} {i : Nat}
    (f : α → Option β) (h : i = done.length → f a' = f a) :
  ((done ++ a' :: rest)[i]?).bind f = ((done ++ a :: rest)[i]?).bind f
  := by
  rcases Nat.lt_trichotomy i done.length with hi | hi | hi
  · rw [List.getElem?_append_left hi, List.getElem?_append_left hi]
  · subst hi
    simpa using h rfl
  · obtain ⟨j, rfl⟩ := Nat.exists_eq_add_of_lt hi
    rw [List.getElem?_append_right (by omega), List.getElem?_append_right (by omega)]
    simp [Nat.add_assoc]

/-- A lower bound is replaced at one place, that of its dimension. -/
theorem replaces_lower :
  (object { details with shape := done ++ ⟨.explicit d, upper⟩ :: rest }).Replaces
    (object { details with shape := done ++ ⟨.explicit d', upper⟩ :: rest })
    (.lower done.length) d d'
  := by
  constructor
  · simp [outline, Dimension.outline, Extent.outline]
  · simp [at?, shape, Extent.explicit?]
  · simp [at?, shape, Extent.explicit?]
  · intro other hother
    cases other with
    | init => rfl
    | lower i =>
      apply getElem?_append_cons_congr
      intro hi
      exact absurd (congrArg Place.lower hi) hother
    | upper i =>
      apply getElem?_append_cons_congr
      intro _
      rfl

/-- An upper bound is replaced at one place, that of its dimension. -/
theorem replaces_upper :
  (object { details with shape := done ++ ⟨lower, .explicit d⟩ :: rest }).Replaces
    (object { details with shape := done ++ ⟨lower, .explicit d'⟩ :: rest })
    (.upper done.length) d d'
  := by
  constructor
  · simp [outline, Dimension.outline, Extent.outline]
  · simp [at?, shape, Extent.explicit?]
  · simp [at?, shape, Extent.explicit?]
  · intro other hother
    cases other with
    | init => rfl
    | lower i =>
      apply getElem?_append_cons_congr
      intro _
      rfl
    | upper i =>
      apply getElem?_append_cons_congr
      intro hi
      exact absurd (congrArg Place.upper hi) hother

end Details

namespace Tree

/-- `t` with the given parameter values for the spec `d`. -/
def setParams (t : Tree) (d : SpecId) (params : List (Option String × Extent)) : Tree :=
  t.modifySpec d fun e => { e with params := params }

section

variable (t : Tree) (x y : SymbolId) (d : SpecId)

/-- New details of `x` are seen at `x` alone, and only if `x` exists. -/
theorem symbol_setDetails (D : Details) :
  (t.setDetails x D).symbol y
    = if y = x ∧ t.HasSymbol x then { t.symbol y with details := D } else t.symbol y
  := by
  apply symbol_modifySymbol

/-- New parameter values of `d` are seen at `d` alone, and only if `d` exists. -/
theorem spec_setParams (params : List (Option String × Extent)) (e : SpecId) :
  (t.setParams d params).spec e
    = if e = d ∧ t.HasSpec d then { t.spec e with params := params } else t.spec e
  := by
  apply spec_modifySpec

@[simp]
theorem size_symbols_setDetails (D : Details) :
  (t.setDetails x D).symbols.size = t.symbols.size
  := by
  apply size_symbols_modifySymbol

@[simp]
theorem size_specs_setParams (params : List (Option String × Extent)) :
  (t.setParams d params).specs.size = t.specs.size
  := by
  apply size_specs_modifySpec

end

variable {t t' : Tree}

/-- The later details replace the earlier ones. -/
@[simp]
theorem setDetails_setDetails (t : Tree) (x : SymbolId) (D D' : Details) :
  (t.setDetails x D).setDetails x D' = t.setDetails x D'
  := by
  have hsymbols : ((t.setDetails x D).setDetails x D').symbols = (t.setDetails x D').symbols := by
    apply symbols_ext
    · simp
    · intro y
      have hx : (t.setDetails x D).HasSymbol x ↔ t.HasSymbol x := by simp [HasSymbol]
      simp only [symbol_setDetails, hx]
      split <;> rfl
  exact congrArg (fun symbols => { t with symbols := symbols }) hsymbols

/-- Setting details that are there already changes nothing. -/
theorem setDetails_details (t : Tree) (x : SymbolId) :
  t.setDetails x (t.symbol x).details = t
  := by
  have hsymbols : (t.setDetails x (t.symbol x).details).symbols = t.symbols := by
    apply symbols_ext
    · simp
    · intro y
      rw [symbol_setDetails]
      split
      · next h => rw [h.1]
      · rfl
  exact congrArg (fun symbols => { t with symbols := symbols }) hsymbols

/-- Setting the parameter values that a spec has changes nothing. -/
theorem setParams_params (t : Tree) (d : SpecId) :
  t.setParams d (t.spec d).params = t
  := by
  have hspecs : (t.setParams d (t.spec d).params).specs = t.specs := by
    apply specs_ext
    · simp
    · intro e
      rw [spec_setParams]
      split
      · next h => rw [h.1]
      · rfl
  exact congrArg (fun specs => { t with specs := specs }) hspecs

/-- The outline after setting details is the one with the outline of these details set. -/
theorem outline_setDetails (t : Tree) (x : SymbolId) (D : Details) :
  (t.setDetails x D).outline = t.outline.setDetails x D.outline
  := by
  have hx : t.outline.HasSymbol x ↔ t.HasSymbol x := by simp [HasSymbol, outline]
  have hsymbols : (t.setDetails x D).outline.symbols
      = (t.outline.setDetails x D.outline).symbols := by
    apply symbols_ext
    · simp [outline]
    · intro y
      simp only [symbol_outline, symbol_setDetails, hx]
      split <;> rfl
  exact congrArg (fun symbols => { t.outline with symbols := symbols }) hsymbols

/-- The outline after setting parameter values is the one with the outlines of these values set. -/
theorem outline_setParams (t : Tree) (d : SpecId) (params : List (Option String × Extent)) :
  (t.setParams d params).outline
    = t.outline.setParams d (params.map fun param => (param.1, param.2.outline))
  := by
  have hd : t.outline.HasSpec d ↔ t.HasSpec d := by simp [HasSpec, outline]
  have hspecs : (t.setParams d params).outline.specs
      = (t.outline.setParams d (params.map fun param => (param.1, param.2.outline))).specs := by
    apply specs_ext
    · simp [outline]
    · intro e
      simp only [spec_outline, spec_setParams, hd]
      split <;> rfl
  exact congrArg (fun specs => { t.outline with specs := specs }) hspecs

/-- Occurrences are gained whatever the details of a symbol are. -/
theorem Gains.setDetails {gained : SymbolId → List Occurrence} (h : t.Gains t' gained)
    (x : SymbolId) (D : Details) :
  (t.setDetails x D).Gains (t'.setDetails x D) gained
  := by
  constructor
  · apply h.scopes
  · apply h.specs
  · simpa using h.size
  · intro y
    have hx : t'.HasSymbol x ↔ t.HasSymbol x := by rw [HasSymbol, HasSymbol, h.size]
    simp only [symbol_setDetails, hx, h.symbol]
    split <;> rfl

/-- Trees that differ by occurrences still do so after their parameter values were set. -/
theorem Gains.setParams {gained : SymbolId → List Occurrence} (h : t.Gains t' gained)
    (d : SpecId) (params : List (Option String × Extent)) :
  (t.setParams d params).Gains (t'.setParams d params) gained
  := by
  constructor
  · apply h.scopes
  · simp only [Tree.setParams, modifySpec, h.specs]
  · apply h.size
  · intro y
    apply h.symbol

/-- If two declarations differ at one place, so do the trees that have the one or the other. -/
theorem replaces_setDetails {x : SymbolId} (hx : t.HasSymbol x) {D D' : Details} {place : Place}
    {d d' : Deferred} (h : D.Replaces D' place d d') :
  (t.setDetails x D).Replaces (t.setDetails x D') (.declaration x place) d d'
  := by
  constructor
  · rw [outline_setDetails, outline_setDetails, h.outline]
  · intro y
    simp only [symbol_setDetails]
    split <;> rfl
  · rw [cell?, symbol_setDetails, if_pos ⟨rfl, hx⟩, h.before]
  · rw [cell?, symbol_setDetails, if_pos ⟨rfl, hx⟩, h.after]
  · intro other hother
    cases other with
    | parameter e position => rfl
    | declaration y otherPlace =>
      simp only [cell?, symbol_setDetails]
      split
      · next hy =>
        apply h.others
        intro hplace
        exact hother (by rw [hy.1, hplace])
      · rfl

/-- If two lists of parameter values differ at one position, so do the trees that have the one or
the other. -/
theorem replaces_setParams {d : SpecId} (hd : t.HasSpec d) (name : Option String)
    (done rest : List (Option String × Extent)) (e e' : Deferred) :
  (t.setParams d (done ++ (name, .explicit e) :: rest)).Replaces
    (t.setParams d (done ++ (name, .explicit e') :: rest)) (.parameter d done.length) e e'
  := by
  constructor
  · rw [outline_setParams, outline_setParams]
    simp [Extent.outline]
  · intro y
    rfl
  · rw [cell?, spec_setParams, if_pos ⟨rfl, hd⟩]
    simp [DerivedTypeSpec.at?, Extent.explicit?]
  · rw [cell?, spec_setParams, if_pos ⟨rfl, hd⟩]
    simp [DerivedTypeSpec.at?, Extent.explicit?]
  · intro other hother
    cases other with
    | declaration y place => rfl
    | parameter other position =>
      simp only [cell?, spec_setParams]
      split
      · next hd' =>
        apply Details.getElem?_append_cons_congr
        intro hposition
        exact absurd (by rw [hd'.1, hposition]) hother
      · rfl

end Tree

end FortranScope
