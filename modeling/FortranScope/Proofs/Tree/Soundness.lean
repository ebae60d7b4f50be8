import FortranScope.Proofs.Expr.Reference
import FortranScope.Proofs.Resolution.Property
import FortranScope.Proofs.Tree.Persistence

/-!
# Sound trees

In a sound tree every scope and symbol stands at the place that its identity numbers, and every
identity that a scope, a symbol or a derived type spec refers to exists.  As what exists
persists, a record that fits a tree fits every later one, and an operation has to be looked at
only for the records that it changes.
-/

namespace FortranScope

namespace Tree

/-- The scope `q` can stand at `s`, and whatever it refers to exists. -/
structure ScopeFits (t : Tree) (s : ScopeId) (q : Scope) : Prop where
  id : q.id = s
  kind : q.kind = .global ↔ s = .global
  ordered : q.children.Pairwise fun r r' => r.index < r'.index
  introduced : q.kind = .moduleUnit → q.symbol.isSome
  symbol : ∀ x, q.symbol = some x → t.HasSymbol x
  submodules : ∀ r ∈ q.submodules.values, t.HasScope r
  specs : ∀ d ∈ q.specs, t.HasSpec d

/-- The symbol `y` can stand at `x`, and whatever it refers to exists.  The scope that it
introduces says so too. -/
structure SymbolFits (t : Tree) (x : SymbolId) (y : Symbol) : Prop where
  id : y.id = x
  owner : t.HasScope y.owner
  scope : ∀ s, y.scope = some s → t.HasScope s ∧ (t.scope s).symbol = some x
  details : t.Knows y.details

/-- The scope of the derived type spec is the definition of a derived type, and whatever the
parameter values refer to exists. -/
structure SpecFits (t : Tree) (e : DerivedTypeSpec) : Prop where
  scope : ∀ s, e.scope = some s → t.HasScope s ∧ (t.scope s).kind = .derivedType
  params : ∀ param ∈ e.params, ∀ x ∈ param.2.symbols, t.HasSymbol x

/-- Whatever exists fits. -/
structure Sound (t : Tree) : Prop where
  scope : ∀ s, t.HasScope s → t.ScopeFits s (t.scope s)
  symbol : ∀ x, t.HasSymbol x → t.SymbolFits x (t.symbol x)
  spec : ∀ d, t.HasSpec d → t.SpecFits (t.spec d)

variable {t t' : Tree}

/-! ## What fits keeps fitting -/

/-- A scope that fits a tree fits every tree that it persists in. -/
theorem ScopeFits.persist {s : ScopeId} {q : Scope} (h : t.ScopeFits s q)
    (ht : t.Persists t') :
  t'.ScopeFits s q
  := by
  refine { h with symbol := ?_, submodules := ?_, specs := ?_ }
  · intro x hx
    apply ht.hasSymbol (h.symbol x hx)
  · intro r hr
    apply ht.hasScope (h.submodules r hr)
  · intro d hd
    apply ht.hasSpec (h.specs d hd)

/-- A symbol that fits a tree fits every tree that it persists in. -/
theorem SymbolFits.persist {x : SymbolId} {y : Symbol} (h : t.SymbolFits x y)
    (ht : t.Persists t') :
  t'.SymbolFits x y
  := by
  constructor
  · apply h.id
  · apply ht.hasScope h.owner
  · intro s hs
    obtain ⟨hscope, hsymbol⟩ := h.scope s hs
    use ht.hasScope hscope
    rw [ht.introducer hscope, hsymbol]
  · apply h.details.persist ht

/-- A spec that fits a tree fits every tree that it persists in. -/
theorem SpecFits.persist {e : DerivedTypeSpec} (h : t.SpecFits e) (ht : t.Persists t') :
  t'.SpecFits e
  := by
  constructor
  · intro s hs
    obtain ⟨hscope, hkind⟩ := h.scope s hs
    use ht.hasScope hscope
    rw [ht.kind hscope, hkind]
  · intro param hparam x hx
    apply ht.hasSymbol (h.params param hparam x hx)

namespace Sound

/-! ## Changes of one record -/

section

variable (h : t.Sound)

include h

/-- A changed scope has to fit only if it did before, since all others fit as they are. -/
theorem modifyScope (s : ScopeId) {f : Scope → Scope} (horigin : ∀ q, (f q).origin = q.origin)
    (hf : t.ScopeFits s (t.scope s) → t.ScopeFits s (f (t.scope s))) :
  (t.modifyScope s f).Sound
  := by
  have ht := t.persists_modifyScope s horigin
  constructor
  · intro q hq
    rw [HasScope, size_scopes_modifyScope] at hq
    apply ScopeFits.persist _ ht
    rw [scope_modifyScope]
    split
    · next hs =>
      obtain ⟨rfl, hs⟩ := hs
      apply hf (h.scope q hs)
    · apply h.scope q hq
  · intro x hx
    apply (h.symbol x hx).persist ht
  · intro d hd
    apply (h.spec d hd).persist ht

/-- A changed symbol has to fit only if it did before, since all others fit as they are. -/
theorem modifySymbol (x : SymbolId) {f : Symbol → Symbol} (horigin : ∀ y, (f y).origin = y.origin)
    (hf : t.SymbolFits x (t.symbol x) → t.SymbolFits x (f (t.symbol x))) :
  (t.modifySymbol x f).Sound
  := by
  have ht := t.persists_modifySymbol x horigin
  constructor
  · intro s hs
    apply (h.scope s hs).persist ht
  · intro y hy
    rw [HasSymbol, size_symbols_modifySymbol] at hy
    apply SymbolFits.persist _ ht
    rw [symbol_modifySymbol]
    split
    · next hx =>
      obtain ⟨rfl, hx⟩ := hx
      apply hf (h.symbol y hx)
    · apply h.symbol y hy
  · intro d hd
    apply (h.spec d hd).persist ht

/-- A changed spec has to fit only if it did before, since all others fit as they are. -/
theorem modifySpec (d : SpecId) {f : DerivedTypeSpec → DerivedTypeSpec}
    (ht : t.Persists (t.modifySpec d f))
    (hf : t.SpecFits (t.spec d) → t.SpecFits (f (t.spec d))) :
  (t.modifySpec d f).Sound
  := by
  constructor
  · intro s hs
    apply (h.scope s hs).persist ht
  · intro x hx
    apply (h.symbol x hx).persist ht
  · intro e he
    rw [HasSpec, size_specs_modifySpec] at he
    apply SpecFits.persist _ ht
    rw [spec_modifySpec]
    split
    · next hd =>
      obtain ⟨rfl, hd⟩ := hd
      apply hf (h.spec e hd)
    · apply h.spec e he

/-- No change is needed where the occurrences of a symbol change. -/
theorem addOccurrence (x : SymbolId) (kind : OccurrenceKind) (span : Span) :
  (t.addOccurrence x kind span).Sound
  := by
  apply h.modifySymbol
  · intro y
    rfl
  · intro hx
    exact ⟨hx.id, hx.owner, hx.scope, hx.details⟩

/-! ## New records -/

/-- A new scope that fits keeps the tree sound. -/
theorem push_scope {q : Scope} (hq : t.ScopeFits ⟨t.scopes.size⟩ q) :
  Sound { t with scopes := t.scopes.push q }
  := by
  have ht := t.persists_push_scope q
  constructor
  · intro s hs
    apply ScopeFits.persist _ ht
    rw [scope_push]
    split
    · next hnew =>
      obtain rfl : s = ⟨t.scopes.size⟩ := congrArg ScopeId.mk hnew
      apply hq
    · next hnew =>
      apply h.scope
      simp only [HasScope, Array.size_push] at hs ⊢
      omega
  · intro x hx
    apply (h.symbol x hx).persist ht
  · intro d hd
    apply (h.spec d hd).persist ht

/-- A new symbol that fits keeps the tree sound. -/
theorem push_symbol {y : Symbol} (hy : t.SymbolFits ⟨t.symbols.size⟩ y) :
  Sound { t with symbols := t.symbols.push y }
  := by
  have ht := t.persists_push_symbol y
  constructor
  · intro s hs
    apply (h.scope s hs).persist ht
  · intro x hx
    apply SymbolFits.persist _ ht
    rw [symbol_push]
    split
    · next hnew =>
      obtain rfl : x = ⟨t.symbols.size⟩ := congrArg SymbolId.mk hnew
      apply hy
    · next hnew =>
      apply h.symbol
      simp only [HasSymbol, Array.size_push] at hx ⊢
      omega
  · intro d hd
    apply (h.spec d hd).persist ht

/-- A new spec that fits keeps the tree sound. -/
theorem push_spec {e : DerivedTypeSpec} (he : t.SpecFits e) :
  Sound { t with specs := t.specs.push e }
  := by
  have ht := t.persists_push_spec e
  constructor
  · intro s hs
    apply (h.scope s hs).persist ht
  · intro x hx
    apply (h.symbol x hx).persist ht
  · intro d hd
    apply SpecFits.persist _ ht
    rw [spec_push]
    split
    · apply he
    · next hnew =>
      apply h.spec
      simp only [HasSpec, Array.size_push] at hd ⊢
      omega

/-! ## Operations -/

/-- The new scope is the youngest, so it comes last among the children of its parent. -/
theorem nest (hcoherent : t.Coherent) {parent : ScopeId} (hparent : t.HasScope parent)
    {kind : ScopeKind} {symbol : Option SymbolId} (hkind : kind ≠ .global)
    (hmodule : kind = .moduleUnit → symbol.isSome)
    (hsymbol : ∀ x ∈ symbol.toList, t.HasSymbol x) :
  (t.nest parent kind symbol).Sound
  := by
  have hnew : t.ScopeFits ⟨t.scopes.size⟩
      (.make ⟨t.scopes.size⟩ kind (some parent) symbol) := by
    constructor
    · rfl
    · have hglobal : ScopeId.mk t.scopes.size ≠ .global := by
        intro hglobal
        have hroot := hcoherent.root
        rw [← hglobal] at hroot
        exact Nat.lt_irrefl _ hroot
      exact iff_of_false hkind hglobal
    · apply List.Pairwise.nil
    · exact hmodule
    · intro x hx
      exact hsymbol x (Option.mem_toList.mpr hx)
    · intro r hr
      contradiction
    · intro d hd
      contradiction
  apply (h.push_scope hnew).modifyScope
  · intro q
    rfl
  · intro hfits
    refine { hfits with ordered := ?_ }
    rw [List.pairwise_append]
    refine ⟨hfits.ordered, List.pairwise_singleton _ _, ?_⟩
    intro r hr r' hr'
    obtain rfl := List.mem_singleton.mp hr'
    rw [scope_push, if_neg (Nat.ne_of_lt hparent)] at hr
    exact ((hcoherent.children parent r).mp hr).1

/-- The new symbol is owned by a scope that exists, and its details refer to what exists. -/
theorem enter {s : ScopeId} (hs : t.HasScope s) (name : Name) {details : Details}
    (hdetails : t.Knows details) :
  (t.enter s name details).Sound
  := by
  have hnew : t.SymbolFits ⟨t.symbols.size⟩
      ⟨⟨t.symbols.size⟩, name.text, s, none, [], details, name.span, []⟩ := by
    constructor
    · rfl
    · apply hs
    · intro r hr
      contradiction
    · apply hdetails
  apply (h.push_symbol hnew).modifyScope
  · intro q
    rfl
  · intro hq
    exact { hq with }

/-- A submodule that exists may be registered anywhere. -/
theorem addSubmodule (s : ScopeId) (name : String) {submodule : ScopeId}
    (hsubmodule : t.HasScope submodule) :
  (t.modifyScope s fun q => { q with submodules := q.submodules.insert name submodule }).Sound
  := by
  apply h.modifyScope
  · intro q
    rfl
  · intro hq
    refine { hq with submodules := ?_ }
    intro r hr
    rw [Table.values, Table.insert, List.map_append] at hr
    rcases List.mem_append.mp hr with hold | hnew
    · apply hq.submodules
      apply (List.filter_sublist.map _).subset hold
    · obtain rfl := List.mem_singleton.mp hnew
      apply hsubmodule

/-- A spec that exists may be listed anywhere. -/
theorem listSpec (s : ScopeId) {d : SpecId} (hd : t.HasSpec d) :
  (t.modifyScope s fun q => { q with specs := q.specs ++ [d] }).Sound
  := by
  apply h.modifyScope
  · intro q
    rfl
  · intro hq
    refine { hq with specs := ?_ }
    intro e he
    rcases List.mem_append.mp he with hold | hnew
    · apply hq.specs e hold
    · obtain rfl := List.mem_singleton.mp hnew
      apply hd

/-- A parameter may be added to a spec if the symbols of its value exist. -/
theorem addParam (d : SpecId) (name : Option String) {value : Extent}
    (hvalue : ∀ x ∈ value.symbols, t.HasSymbol x) :
  (t.addParam d name value).Sound
  := by
  apply h.modifySpec d (persists_write .addParam)
  intro hd
  refine { hd with params := ?_ }
  intro param hparam
  rcases List.mem_append.mp hparam with hold | hnew
  · apply hd.params param hold
  · obtain rfl := List.mem_singleton.mp hnew
    apply hvalue

/-- A write of a valid operation keeps a coherent tree sound. -/
theorem write (hcoherent : t.Coherent) {o : Operation} (ho : o.Valid t)
    (hwrite : o.Writes t t') :
  t'.Sound
  := by
  have ht := persists_write hwrite
  cases hwrite with
  | nest hkind hmodule => apply h.nest hcoherent ho.1 hkind hmodule ho.2
  | introduce hs hx =>
    apply h.modifySymbol
    · intro y
      rfl
    · intro hy
      refine { hy with scope := ?_ }
      intro r hr
      obtain rfl := Option.some.inj hr
      exact ⟨hs, hx⟩
  | enter => apply h.enter ho.1 _ ho.2
  | find | findSymbol | findAround | remove => apply h.addOccurrence
  | erase | setImport | addImportName | addRange =>
    apply h.modifyScope
    · intro q
      rfl
    · intro hq
      exact { hq with }
  | addSubmodule => apply h.addSubmodule _ _ ho.2
  | makeSpec =>
    apply h.push_spec
    constructor
    · intro r hr
      contradiction
    · -- a new spec has no parameters
      intro param hparam
      contradiction
  | listSpec hd => apply h.listSpec _ hd
  | bindSpec _ hkind =>
    apply h.modifySpec _ ht
    intro hd
    refine { hd with scope := ?_ }
    intro r hr
    obtain rfl := Option.some.inj hr
    exact ⟨ho.2, hkind⟩
  | addParam => apply h.addParam _ _ ho.2
  | setDetails =>
    apply h.modifySymbol
    · intro y
      rfl
    · intro hx
      exact { hx with details := ho.2 }
  | addAttr | removeAttr =>
    apply h.modifySymbol
    · intro y
      rfl
    · intro hx
      exact { hx with }

/-- A valid operation keeps a coherent tree sound. -/
theorem apply (hcoherent : t.Coherent) {o : Operation} (ho : o.Valid t) :
  (o.apply t).Sound
  := by
  have hboth : (o.apply t).Coherent ∧ (o.apply t).Sound := by
    apply ho.apply_induction (P := fun u => u.Coherent ∧ u.Sound) ⟨hcoherent, h⟩
    rintro u v hu hwrite ⟨hcoherent, hsound⟩
    exact ⟨hcoherent.write hu hwrite, hsound.write hcoherent hu hwrite⟩
  exact hboth.2

end

end Sound

/-- The tree with the global scope alone is sound. -/
theorem sound_initial :
  initial.Sound
  := by
  constructor
  · intro s hs
    have hs : s = .global := congrArg ScopeId.mk (Nat.lt_one_iff.mp hs)
    subst hs
    constructor
    · rfl
    · exact iff_of_true rfl rfl
    · apply List.Pairwise.nil
    · intro hunit
      contradiction
    · intro x hx
      contradiction
    · intro r hr
      contradiction
    · intro d hd
      contradiction
  · intro x hx
    contradiction
  · intro d hd
    contradiction

end Tree

end FortranScope
