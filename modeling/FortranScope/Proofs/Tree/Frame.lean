import FortranScope.Proofs.Session.Operation
import Mathlib.Tactic.Use

/-!
# What operations leave as it is

A change of one scope, symbol or spec is read back at any identity, and `Tree.Gains` says that
a tree differs from another one only by occurrences that its symbols gained at the end.
Look-ups and analyses change a tree in no other way.
-/

namespace FortranScope

namespace Tree

/-! ## Reading a change back -/

/-- A change of `s` is seen at `s` alone, and only if `s` exists. -/
theorem scope_modifyScope (t : Tree) (s : ScopeId) (f : Scope → Scope) (q : ScopeId) :
  (t.modifyScope s f).scope q = if q = s ∧ t.HasScope s then f (t.scope q) else t.scope q
  := by
  split
  · next h =>
    rw [h.1]
    apply scope_modifyScope_self f h.2
  · next h =>
    by_cases hq : q = s
    · -- the scope does not exist, before and after
      have hs : ¬ s.index < t.scopes.size := fun hs => h ⟨hq, hs⟩
      subst hq
      simp [scope, modifyScope, hs]
    · apply scope_modifyScope_of_ne t f hq

/-- A change of `x` is seen at `x` alone, and only if `x` exists. -/
theorem symbol_modifySymbol (t : Tree) (x : SymbolId) (f : Symbol → Symbol) (y : SymbolId) :
  (t.modifySymbol x f).symbol y = if y = x ∧ t.HasSymbol x then f (t.symbol y) else t.symbol y
  := by
  split
  · next h =>
    rw [h.1]
    apply symbol_modifySymbol_self f h.2
  · next h =>
    by_cases hy : y = x
    · have hx : ¬ x.index < t.symbols.size := fun hx => h ⟨hy, hx⟩
      subst hy
      simp [symbol, modifySymbol, hx]
    · apply symbol_modifySymbol_of_ne t f hy

/-- A change of `d` is seen at `d` alone, and only if `d` exists. -/
theorem spec_modifySpec (t : Tree) (d : SpecId) (f : DerivedTypeSpec → DerivedTypeSpec)
    (e : SpecId) :
  (t.modifySpec d f).spec e = if e = d ∧ t.HasSpec d then f (t.spec e) else t.spec e
  := by
  obtain ⟨d⟩ := d
  obtain ⟨e⟩ := e
  simp only [spec, modifySpec, Array.getElem?_modify, HasSpec, SpecId.mk.injEq]
  by_cases he : e = d
  · subst he
    by_cases hd : e < t.specs.size
    · simp [hd]
    · simp [hd]
  · rw [if_neg (Ne.symm he), if_neg (fun h => he h.1)]

/-- A change of a scope leaves alone what it does not change in it. -/
theorem field_modifyScope {α : Type} (field : Scope → α) {f : Scope → Scope}
    (hf : ∀ q, field (f q) = field q) (t : Tree) (s q : ScopeId) :
  field ((t.modifyScope s f).scope q) = field (t.scope q)
  := by
  rw [scope_modifyScope]
  split
  · apply hf
  · rfl

/-- A change of a symbol leaves alone what it does not change in it. -/
theorem field_modifySymbol {α : Type} (field : Symbol → α) {f : Symbol → Symbol}
    (hf : ∀ y, field (f y) = field y) (t : Tree) (x y : SymbolId) :
  field ((t.modifySymbol x f).symbol y) = field (t.symbol y)
  := by
  rw [symbol_modifySymbol]
  split
  · apply hf
  · rfl

@[simp]
theorem size_scopes_modifyScope (t : Tree) (s : ScopeId) (f : Scope → Scope) :
  (t.modifyScope s f).scopes.size = t.scopes.size
  := Array.size_modify

@[simp]
theorem size_symbols_modifySymbol (t : Tree) (x : SymbolId) (f : Symbol → Symbol) :
  (t.modifySymbol x f).symbols.size = t.symbols.size
  := Array.size_modify

@[simp]
theorem size_specs_modifySpec (t : Tree) (d : SpecId) (f : DerivedTypeSpec → DerivedTypeSpec) :
  (t.modifySpec d f).specs.size = t.specs.size
  := Array.size_modify

/-- The symbols of a tree are known by their identities. -/
theorem symbols_ext {t t' : Tree} (hsize : t'.symbols.size = t.symbols.size)
    (h : ∀ x, t'.symbol x = t.symbol x) :
  t'.symbols = t.symbols
  := by
  apply Array.ext hsize
  intro i hi' hi
  have hx := h ⟨i⟩
  simp only [symbol, Array.getElem?_eq_getElem hi', Array.getElem?_eq_getElem hi] at hx
  apply hx

/-- The specs of a tree are known by their identities. -/
theorem specs_ext {t t' : Tree} (hsize : t'.specs.size = t.specs.size)
    (h : ∀ d, t'.spec d = t.spec d) :
  t'.specs = t.specs
  := by
  apply Array.ext hsize
  intro i hi' hi
  have hd := h ⟨i⟩
  simp only [spec, Array.getElem?_eq_getElem hi', Array.getElem?_eq_getElem hi] at hd
  apply hd

/-- An identity that no scope has is read as the default scope. -/
theorem scope_eq_default {t : Tree} {s : ScopeId} (h : ¬ t.HasScope s) :
  t.scope s = default
  := by
  rw [scope, Array.getElem?_eq_none (Nat.le_of_not_lt h)]
  rfl

/-- An identity that no symbol has is read as the default symbol. -/
theorem symbol_eq_default {t : Tree} {x : SymbolId} (h : ¬ t.HasSymbol x) :
  t.symbol x = default
  := by
  rw [symbol, Array.getElem?_eq_none (Nat.le_of_not_lt h)]
  rfl

/-- An identity that no spec has is read as the default spec. -/
theorem spec_eq_default {t : Tree} {d : SpecId} (h : ¬ t.HasSpec d) :
  t.spec d = default
  := by
  rw [spec, Array.getElem?_eq_none (Nat.le_of_not_lt h)]
  rfl

/-! ## New records -/

/-- A scope added at the end is read back at the first identity that was free. -/
theorem scope_push (t : Tree) (q : Scope) (s : ScopeId) :
  scope { t with scopes := t.scopes.push q } s = if s.index = t.scopes.size then q else t.scope s
  := by
  simp only [scope, Array.getElem?_push]
  split <;> rfl

/-- A symbol added at the end is read back at the first identity that was free. -/
theorem symbol_push (t : Tree) (y : Symbol) (x : SymbolId) :
  symbol { t with symbols := t.symbols.push y } x
    = if x.index = t.symbols.size then y else t.symbol x
  := by
  simp only [symbol, Array.getElem?_push]
  split <;> rfl

/-- A spec added at the end is read back at the first identity that was free. -/
theorem spec_push (t : Tree) (e : DerivedTypeSpec) (d : SpecId) :
  spec { t with specs := t.specs.push e } d = if d.index = t.specs.size then e else t.spec d
  := by
  simp only [spec, Array.getElem?_push]
  split <;> rfl

/-! ## Occurrences -/

/-- `t'` is `t` after every symbol `x` gained the occurrences `gained x`. -/
structure Gains (t t' : Tree) (gained : SymbolId → List Occurrence) : Prop where
  scopes : t'.scopes = t.scopes
  specs : t'.specs = t.specs
  size : t'.symbols.size = t.symbols.size
  symbol : ∀ x, t'.symbol x
    = { t.symbol x with occurrences := (t.symbol x).occurrences ++ gained x }

/-- The symbol `x` gains an occurrence, and no other symbol does. -/
def occurrenceOf (x : SymbolId) (kind : OccurrenceKind) (span : Span) :
    SymbolId → List Occurrence :=
  fun y => if y = x then [⟨kind, span⟩] else []

namespace Gains

variable {t t' t'' : Tree} {gained gained' : SymbolId → List Occurrence}

theorem refl (t : Tree) :
  t.Gains t fun _ => []
  := by
  constructor
  · rfl
  · rfl
  · rfl
  · intro x
    rw [List.append_nil]

theorem trans (h : t.Gains t' gained) (h' : t'.Gains t'' gained') :
  t.Gains t'' fun x => gained x ++ gained' x
  := by
  constructor
  · rw [h'.scopes, h.scopes]
  · rw [h'.specs, h.specs]
  · rw [h'.size, h.size]
  · intro x
    rw [h'.symbol, h.symbol, List.append_assoc]

/-- Gaining occurrences changes no scope. -/
theorem scope (h : t.Gains t' gained) (s : ScopeId) :
  t'.scope s = t.scope s
  := by
  rw [Tree.scope, h.scopes]
  rfl

/-- Gaining occurrences changes no spec. -/
theorem spec (h : t.Gains t' gained) (d : SpecId) :
  t'.spec d = t.spec d
  := by
  rw [Tree.spec, h.specs]
  rfl

/-- Gaining occurrences changes no details. -/
theorem details (h : t.Gains t' gained) (x : SymbolId) :
  (t'.symbol x).details = (t.symbol x).details
  := by
  rw [h.symbol]

end Gains

/-- An occurrence recorded at an existing symbol is gained by it and by no other. -/
theorem gains_addOccurrence {t : Tree} {x : SymbolId} (hx : t.HasSymbol x)
    (kind : OccurrenceKind) (span : Span) :
  t.Gains (t.addOccurrence x kind span) (occurrenceOf x kind span)
  := by
  constructor
  · rfl
  · rfl
  · apply size_symbols_modifySymbol
  · intro y
    rw [addOccurrence, symbol_modifySymbol, occurrenceOf]
    by_cases hy : y = x
    · rw [if_pos ⟨hy, hx⟩, if_pos hy]
    · rw [if_neg fun h => hy h.1, if_neg hy, List.append_nil]

/-- Which occurrence a tree gains depends only on how many symbols it has. -/
theorem exists_gains_addOccurrence (size : Nat) (x : SymbolId) (kind : OccurrenceKind)
    (span : Span) :
  ∃ gained, ∀ t : Tree, t.symbols.size = size → t.Gains (t.addOccurrence x kind span) gained
  := by
  by_cases hx : x.index < size
  · use occurrenceOf x kind span
    rintro t rfl
    apply gains_addOccurrence hx
  · use fun _ => []
    rintro t rfl
    constructor
    · rfl
    · rfl
    · apply size_symbols_modifySymbol
    · intro y
      rw [addOccurrence, symbol_modifySymbol, if_neg fun h => hx h.2, List.append_nil]

end Tree

/-- What an analysis records in a tree are occurrences, and the same ones in every tree with as many
symbols. -/
theorem Context.exists_gains_record {α : Type} (size : Nat) (a : Analysis α) :
  ∃ gained, ∀ c : Context, c.tree.symbols.size = size → c.tree.Gains (c.record a).tree gained
  := by
  have h (uses : List Use) : ∃ gained, ∀ t : Tree, t.symbols.size = size → t.Gains
      (uses.foldl (fun t u => t.addOccurrence u.symbol .used u.span) t) gained := by
    induction uses with
    | nil => exact ⟨_, fun t _ => .refl t⟩
    | cons u uses ih =>
      obtain ⟨gained, hgained⟩ := Tree.exists_gains_addOccurrence size u.symbol .used u.span
      obtain ⟨gained', hgained'⟩ := ih
      use fun x => gained x ++ gained' x
      intro t ht
      have hfirst := hgained t ht
      apply hfirst.trans (hgained' _ (hfirst.size.trans ht))
  obtain ⟨gained, hgained⟩ := h a.uses
  exact ⟨gained, fun c hc => hgained c.tree hc⟩

end FortranScope
