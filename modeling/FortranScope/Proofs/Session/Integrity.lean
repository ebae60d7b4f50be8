import FortranScope.Proofs.Tree.Soundness

/-!
# Integrity

Every session that can be reached has a sound tree.  What a resolution puts into cells refers to
symbols in tables only, which exist, so besides the operations on trees nothing can break the
soundness of a tree.  And nothing that exists in a tree goes away later.
-/

namespace FortranScope

/-! ## Expressions and the rest of a declaration -/

/-- The symbols that the expression refers to have the property `P`. -/
def Deferred.RefersTo (P : SymbolId → Prop) (d : Deferred) : Prop := ∀ x ∈ d.symbols, P x

section

variable {P : SymbolId → Prop}

/-- What holds of the symbols of an extent is said of its expression. -/
theorem Extent.forall_mem_symbols_iff {e : Extent} :
  (∀ x ∈ e.symbols, P x) ↔ e.Holds (Deferred.RefersTo P)
  := by
  cases e <;> simp [symbols, explicit?, Holds, Deferred.RefersTo]

/-- An outline refers to no symbols in its extents. -/
theorem Extent.symbols_outline (e : Extent) :
  e.outline.symbols = []
  := by
  cases e <;> rfl

/-- What holds of the symbols of a dimension is said of its expressions. -/
theorem Dimension.forall_mem_symbols_iff {dimension : Dimension} :
  (∀ x ∈ dimension.symbols, P x) ↔ dimension.Holds (Deferred.RefersTo P)
  := by
  rw [symbols, List.forall_mem_append, Extent.forall_mem_symbols_iff,
    Extent.forall_mem_symbols_iff, Holds]

/-- An outline refers to no symbols in its dimensions. -/
theorem Dimension.symbols_outline (dimension : Dimension) :
  dimension.outline.symbols = []
  := by
  rw [symbols, outline, Extent.symbols_outline, Extent.symbols_outline, List.append_nil]

namespace Details

/-- What holds of the symbols of an initial value is said of its expression. -/
theorem forall_mem_symbols_init_iff {init : Option Deferred} :
  (∀ x ∈ init.toList.flatMap Deferred.symbols, P x) ↔ ∀ d, init = some d → d.RefersTo P
  := by
  cases init <;> simp [Deferred.RefersTo]

/-- An outline refers to no symbols in an initial value. -/
theorem symbols_outline_init (init : Option Deferred) :
  (init.map fun _ => Deferred.empty).toList.flatMap Deferred.symbols = []
  := by
  cases init <;> rfl

/-- What holds of the symbols of an array's bounds is said of their expressions. -/
theorem forall_mem_symbols_shape_iff {shape : List Dimension} :
  (∀ x ∈ shape.flatMap Dimension.symbols, P x)
    ↔ ∀ dimension ∈ shape, dimension.Holds (Deferred.RefersTo P)
  := by
  simp only [← Dimension.forall_mem_symbols_iff, List.mem_flatMap]
  constructor
  · intro h dimension hdimension x hx
    exact h x ⟨dimension, hdimension, hx⟩
  · rintro h x ⟨dimension, hdimension, hx⟩
    exact h dimension hdimension x hx

/-- What a declaration refers to stands in its outline or in a deferred expression. -/
theorem forall_mem_symbols_iff {D : Details} :
  (∀ x ∈ D.symbols, P x)
    ↔ (∀ x ∈ D.outline.symbols, P x) ∧ D.Holds (Deferred.RefersTo P)
  := by
  cases D with
  | object details =>
    have houtline : (object details).outline.symbols = [] := by
      simp [outline, symbols, symbols_outline_init, Dimension.symbols_outline]
    rw [houtline, symbols, List.forall_mem_append, forall_mem_symbols_init_iff,
      forall_mem_symbols_shape_iff]
    simp [Holds, init?, shape]
  | typeParam details =>
    rw [outline, symbols, symbols, symbols_outline_init, forall_mem_symbols_init_iff]
    simp [Holds, init?, shape]
  | _ => simp [outline, Holds, init?, shape]

end Details

/-- What holds of the symbols of parameter values is said of their expressions. -/
theorem DerivedTypeSpec.forall_mem_symbols_iff {e : DerivedTypeSpec} :
  (∀ param ∈ e.params, ∀ x ∈ param.2.symbols, P x) ↔ e.Holds (Deferred.RefersTo P)
  := by
  simp only [Extent.forall_mem_symbols_iff, Holds]

end

namespace Tree

variable {t t' : Tree}

/-- What a declaration refers to is known if what its outline and its expressions refer to is. -/
theorem knows_iff {D : Details} :
  t.Knows D ↔ t.Knows D.outline ∧ D.Holds (Deferred.RefersTo t.HasSymbol)
  := by
  have hspec : D.outline.spec? = D.spec? := by
    rw [Details.spec?, Details.type?_outline, Details.spec?]
  rw [Knows, Knows, hspec, Details.forall_mem_symbols_iff]
  tauto

/-- In a sound tree all expressions refer to symbols that exist. -/
theorem Sound.holds (h : t.Sound) :
  t.Holds (Deferred.RefersTo t.HasSymbol)
  := by
  rw [holds_iff]
  constructor
  · intro x
    by_cases hx : t.HasSymbol x
    · apply (knows_iff.mp (h.symbol x hx).details).2
    · rw [symbol_eq_default hx, Details.holds_iff]
      intro place d hd
      cases place <;> contradiction
  · intro d
    by_cases hd : t.HasSpec d
    · apply DerivedTypeSpec.forall_mem_symbols_iff.mp (h.spec d hd).params
    · rw [spec_eq_default hd]
      intro param hparam
      contradiction

/-- Beside its outline only what the cells of a tree refer to matters. -/
theorem Sound.of_outline_eq (h : t.Sound) (houtline : t'.outline = t.outline)
    (hcells : t'.Holds (Deferred.RefersTo t.HasSymbol)) :
  t'.Sound
  := by
  have ht := persists_of_outline_eq houtline
  obtain ⟨hdetails, hparams⟩ := holds_iff.mp hcells
  have hspecs : t'.specs.size = t.specs.size := by
    have hsize := congrArg (fun u => u.specs.size) houtline
    simpa [outline] using hsize
  constructor
  · intro s hs
    rw [HasScope, scopes_eq_of_outline_eq houtline] at hs
    rw [scope_eq_of_outline_eq houtline]
    apply (h.scope s hs).persist ht
  · intro x hx
    rw [HasSymbol, size_symbols_eq_of_outline_eq houtline] at hx
    have hfits := h.symbol x hx
    have hsymbol := outline_symbol_eq_of_outline_eq houtline x
    have hknows : t.Knows (t'.symbol x).details := by
      apply knows_iff.mpr
      rw [outline_details_eq_of_outline_eq houtline]
      exact ⟨(knows_iff.mp hfits.details).1, hdetails x⟩
    apply SymbolFits.persist _ ht
    constructor
    · apply (congrArg Symbol.id hsymbol).trans hfits.id
    · rw [owner_eq_of_outline_eq houtline]
      apply hfits.owner
    · have hscope := congrArg Symbol.scope hsymbol
      intro s hs
      apply hfits.scope s
      apply hscope.symm.trans hs
    · apply hknows
  · intro d hd
    rw [HasSpec, hspecs] at hd
    have hfits := h.spec d hd
    apply SpecFits.persist _ ht
    constructor
    · have hspec : (t'.spec d).outline = (t.spec d).outline := by
        rw [← spec_outline, ← spec_outline, houtline]
      intro s hs
      apply hfits.scope s
      apply (congrArg DerivedTypeSpec.scope hspec).symm.trans hs
    · apply DerivedTypeSpec.forall_mem_symbols_iff.mpr (hparams d)

end Tree

/-! ## Resolutions -/

/-- Settling finds symbols in tables only. -/
theorem Session.refersTo_settle {P : SymbolId → Prop} (r : Session) (s : ScopeId) {d : Deferred}
    (htabled : ∀ x, r.context.tree.Tabled x → P x) (hd : d.RefersTo P) :
  (r.settle s d).1.RefersTo P
  := by
  cases d with
  | empty | failed =>
    intro x hx
    contradiction
  | resolved e => apply hd
  | pending phrase =>
    rw [settle]
    split
    · intro x hx
      contradiction
    · next e next heq =>
      have hresult : (r.context.analysis s phrase).result = some e := congrArg Prod.fst heq
      intro x hx
      have hfolded : x ∈ (e.fold next.context.config).1.symbols := by
        simpa [Deferred.symbols, Deferred.expr?, fold] using hx
      apply htabled
      apply Tree.DenotedIn.tabled
      apply r.context.denotedIn_of_mem_used_analysis s phrase
      apply r.context.symbols_subset_used_analysis s phrase hresult
      apply e.symbols_fold_subset _ hfolded

/-- Gaining occurrences changes no table. -/
theorem Tree.Gains.tabled_iff {t t' : Tree} {gained : SymbolId → List Occurrence}
    (h : t.Gains t' gained) {x : SymbolId} :
  t'.Tabled x ↔ t.Tabled x
  := by
  simp only [Tabled, HasScope, h.scopes, h.scope]

namespace Pass

/-- Where every symbol in a table has an index below `n`, so has every symbol that a settled
expression refers to. -/
theorem maintains_refersTo (n : Nat) :
  Maintains (fun p => ∀ x, p.tree.Tabled x → x.index < n)
    (Deferred.RefersTo fun x => x.index < n)
  := by
  constructor
  · intro p s d htabled hd
    rw [settle]
    split
    · apply p.session.refersTo_settle s htabled hd
    · apply hd
  · intro p q htabled hextends x hx
    obtain ⟨gained, hgains⟩ := hextends.tree
    apply htabled x (hgains.tabled_iff.mp hx)
  · intro p x D htabled hD
    apply htabled
  · intro p d params htabled hparams
    apply htabled

end Pass

namespace Session

/-- A resolution keeps the tree sound: the expressions that it puts in refer to symbols that exist.
-/
theorem sound_resolve {r : Session} (hcoherent : r.context.tree.Coherent)
    (hsound : r.context.tree.Sound) :
  r.resolve.2.context.tree.Sound
  := by
  have htabled (x : SymbolId) (hx : r.context.tree.Tabled x) :
      x.index < r.context.tree.symbols.size := by
    obtain ⟨s, -, hx⟩ := hx
    apply hcoherent.hasSymbol hx
  rw [resolve_eq]
  apply hsound.of_outline_eq r.settles_pass.outline
  apply ((Pass.maintains_refersTo _).foldl (p := ⟨r, .zero⟩) htabled hsound.holds _).2

/-! ## Sessions -/

/-- Every session that can be reached has a sound tree. -/
theorem Reachable.sound {r : Session} (hr : r.Reachable) :
  r.context.tree.Sound
  := by
  induction hr with
  | initial => apply Tree.sound_initial
  | @step r o hr ho ih =>
    cases o with
    | onTree o => apply ih.apply hr.coherent ho
    | say d => apply ih
    | analyze s phrase =>
      obtain ⟨gained, hgains⟩ := (r.extends_analyze s phrase).tree
      apply ih.of_outline_eq hgains.outline_eq
      apply ih.holds.of_gains hgains
    | fold e => apply ih
    | resolve => apply sound_resolve hr.coherent ih

/-- Whatever an operation on a session does, the scopes, symbols and specs that were there persist.
-/
theorem persists_apply (r : Session) (o : Operation) :
  r.context.tree.Persists (o.apply r).context.tree
  := by
  cases o with
  | onTree o => apply Tree.persists_apply
  | say d => apply Tree.persists_refl
  | analyze s phrase =>
    obtain ⟨gained, hgains⟩ := (r.extends_analyze s phrase).tree
    apply Tree.persists_of_outline_eq hgains.outline_eq
  | fold e => apply Tree.persists_refl
  | resolve =>
    apply Tree.persists_of_outline_eq
    rw [Operation.apply, resolve_eq]
    apply r.settles_pass.outline

/-- What exists at some point of a run exists ever after. -/
theorem persists_run (r : Session) (operations : List Operation) :
  r.context.tree.Persists (r.run operations).context.tree
  := by
  induction operations generalizing r with
  | nil => apply Tree.persists_refl
  | cons o rest ih => apply (r.persists_apply o).trans (ih _)

/-- The tree of a session that can be reached is coherent and sound, no symbol is in two of its
tables, and a new derived type spec gets the identity of the place that it is put at.  Whatever
exists keeps its identity and its origin, and a spec its scope, in everything that is done
later. -/
theorem integrity_of_reachable {r : Session} (hr : r.Reachable) :
  let t := r.context.tree
  t.Coherent ∧ t.Sound
    ∧ (∀ s s' x, x ∈ (t.scope s).table.values → x ∈ (t.scope s').table.values → s' = s)
    ∧ (∀ s name, ¬ t.HasSpec (t.makeSpec s name).1
      ∧ (t.makeSpec s name).2.specs.size = t.specs.size + 1
      ∧ (t.makeSpec s name).2.spec (t.makeSpec s name).1 = ⟨Text.foldCase name, none, []⟩)
    ∧ ∀ operations, t.Persists (r.run operations).context.tree
  := by
  refine ⟨hr.coherent, hr.sound, ?_, ?_, r.persists_run⟩
  · intro s s' x hx hx'
    rw [← hr.coherent.owner hx, ← hr.coherent.owner hx']
  · intro s name
    refine ⟨Nat.lt_irrefl _, ?_, ?_⟩
    · apply Array.size_push
    · apply (Tree.spec_push _ _ _).trans (if_pos rfl)

/-- A module contains the definition of a derived type, whose spec is bound to it and given a
parameter value that refers to the symbol before the module.  That symbol is then removed. -/
def boundSpecRun : List Operation :=
  let span : Span := ⟨"a.f90", 0, 1⟩
  [.onTree (.declare .global ⟨"n", span⟩ (.object ⟨none, none, []⟩)),
    .onTree (.declare .global ⟨"m", span⟩ (.moduleUnit false)),
    .onTree (.makeScope .global .moduleUnit (some ⟨1⟩)),
    .onTree (.addSubmodule .global "s" ⟨1⟩),
    .onTree (.makeScope ⟨1⟩ .derivedType none),
    .onTree (.makeSpec ⟨1⟩ "T"),
    .onTree (.bindSpec ⟨0⟩ ⟨2⟩),
    .onTree (.addParam ⟨0⟩ none (.explicit (.pending (.designator ⟨"n", span⟩)))),
    .onTree (.declare ⟨1⟩ ⟨"a", span⟩ (.object ⟨some (.typeDerived ⟨0⟩), none, []⟩)),
    .resolve,
    .onTree (.erase .global ⟨"n", span⟩)]

/-- The removed symbol still exists, and the parameter value refers to it. -/
theorem integrity_of_reachable_boundSpecRun :
  let r := (initial .standard).run boundSpecRun
  let t := r.context.tree
  (t.spec ⟨0⟩ = ⟨"t", some ⟨2⟩, [(none, .explicit (.resolved (.designator "n" ⟨0⟩)))]⟩
      ∧ t.HasSymbol ⟨0⟩ ∧ t.local? .global "n" = none)
    ∧ t.Coherent ∧ t.Sound
    ∧ (∀ s s' x, x ∈ (t.scope s).table.values → x ∈ (t.scope s').table.values → s' = s)
    ∧ (∀ s name, ¬ t.HasSpec (t.makeSpec s name).1
      ∧ (t.makeSpec s name).2.specs.size = t.specs.size + 1
      ∧ (t.makeSpec s name).2.spec (t.makeSpec s name).1 = ⟨Text.foldCase name, none, []⟩)
    ∧ ∀ operations, t.Persists (r.run operations).context.tree
  := by
  have hvalid : (initial .standard).ValidRun boundSpecRun := by decide +kernel
  have hreachable := (Reachable.initial .standard).run hvalid
  refine ⟨?_, integrity_of_reachable hreachable⟩
  decide +kernel

end Session

end FortranScope
