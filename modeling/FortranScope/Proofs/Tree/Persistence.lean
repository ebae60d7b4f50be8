import FortranScope.Proofs.Resolution.Cell
import FortranScope.Proofs.Tree.Inversion

/-!
# What persists

Identities number the scopes, symbols and derived type specs in the order of their creation, and
nothing that was created goes away or is created anew.  `Tree.Persists` says what every operation
leaves as it was.
-/

namespace FortranScope

/-- What a scope was created with. -/
def Scope.origin (q : Scope) : Scope := .make q.id q.kind q.parent q.symbol

/-- What a symbol was declared with, apart from its details. -/
def Symbol.origin (y : Symbol) : Symbol :=
  ⟨y.id, y.name, y.owner, none, [], .unknown, y.declaredAt, []⟩

namespace Tree

/-- Whatever exists in `t` exists in `t'` under the same identity and with the same origin.  A
derived type spec that is bound to a scope stays bound to it. -/
structure Persists (t t' : Tree) : Prop where
  scopes : t.scopes.size ≤ t'.scopes.size
  symbols : t.symbols.size ≤ t'.symbols.size
  specs : t.specs.size ≤ t'.specs.size
  scope : ∀ s, t.HasScope s → (t'.scope s).origin = (t.scope s).origin
  symbol : ∀ x, t.HasSymbol x → (t'.symbol x).origin = (t.symbol x).origin
  specName : ∀ d, t.HasSpec d → (t'.spec d).name = (t.spec d).name
  specScope : ∀ d, t.HasSpec d → ∀ s, (t.spec d).scope = some s → (t'.spec d).scope = some s

variable {t t' t'' : Tree}

namespace Persists

section

variable (h : t.Persists t')

include h

theorem hasScope {s : ScopeId} (hs : t.HasScope s) :
  t'.HasScope s
  := Nat.lt_of_lt_of_le hs h.scopes

theorem hasSymbol {x : SymbolId} (hx : t.HasSymbol x) :
  t'.HasSymbol x
  := Nat.lt_of_lt_of_le hx h.symbols

theorem hasSpec {d : SpecId} (hd : t.HasSpec d) :
  t'.HasSpec d
  := Nat.lt_of_lt_of_le hd h.specs

/-- A scope keeps its kind. -/
theorem kind {s : ScopeId} (hs : t.HasScope s) :
  (t'.scope s).kind = (t.scope s).kind
  := by
  have hkind := congrArg Scope.kind (h.scope s hs)
  apply hkind

/-- A scope keeps its parent. -/
theorem parent {s : ScopeId} (hs : t.HasScope s) :
  (t'.scope s).parent = (t.scope s).parent
  := by
  have hparent := congrArg Scope.parent (h.scope s hs)
  apply hparent

/-- A scope keeps the symbol that introduced it. -/
theorem introducer {s : ScopeId} (hs : t.HasScope s) :
  (t'.scope s).symbol = (t.scope s).symbol
  := by
  have hsymbol := congrArg Scope.symbol (h.scope s hs)
  apply hsymbol

theorem trans (h' : t'.Persists t'') :
  t.Persists t''
  := by
  constructor
  · exact Nat.le_trans h.scopes h'.scopes
  · exact Nat.le_trans h.symbols h'.symbols
  · exact Nat.le_trans h.specs h'.specs
  · intro s hs
    rw [h'.scope s (h.hasScope hs), h.scope s hs]
  · intro x hx
    rw [h'.symbol x (h.hasSymbol hx), h.symbol x hx]
  · intro d hd
    rw [h'.specName d (h.hasSpec hd), h.specName d hd]
  · intro d hd s hs
    apply h'.specScope d (h.hasSpec hd) s
    apply h.specScope d hd s hs

end

end Persists

/-! ## Changes of one record -/

/-- A tree persists as itself. -/
theorem persists_refl (t : Tree) :
  t.Persists t
  := by
  constructor
  · apply Nat.le_refl
  · apply Nat.le_refl
  · apply Nat.le_refl
  · intro s _
    rfl
  · intro x _
    rfl
  · intro d _
    rfl
  · intro d _ s hs
    apply hs

/-- A change of one scope that keeps where it comes from is harmless. -/
theorem persists_modifyScope (t : Tree) (s : ScopeId) {f : Scope → Scope}
    (hf : ∀ q, (f q).origin = q.origin) :
  t.Persists (t.modifyScope s f)
  := by
  refine { t.persists_refl with scopes := ?_, scope := ?_ }
  · exact Nat.le_of_eq (t.size_scopes_modifyScope s f).symm
  · intro q _
    apply field_modifyScope Scope.origin hf

/-- A change of one symbol that keeps where it comes from is harmless. -/
theorem persists_modifySymbol (t : Tree) (x : SymbolId) {f : Symbol → Symbol}
    (hf : ∀ y, (f y).origin = y.origin) :
  t.Persists (t.modifySymbol x f)
  := by
  refine { t.persists_refl with symbols := ?_, symbol := ?_ }
  · exact Nat.le_of_eq (t.size_symbols_modifySymbol x f).symm
  · intro y _
    apply field_modifySymbol Symbol.origin hf

/-- A change of a spec is harmless if it keeps the name, and the scope once there is one. -/
theorem persists_modifySpec (t : Tree) (d : SpecId) {f : DerivedTypeSpec → DerivedTypeSpec}
    (hname : (f (t.spec d)).name = (t.spec d).name)
    (hscope : ∀ s, (t.spec d).scope = some s → (f (t.spec d)).scope = some s) :
  t.Persists (t.modifySpec d f)
  := by
  refine { t.persists_refl with specs := ?_, specName := ?_, specScope := ?_ }
  · exact Nat.le_of_eq (t.size_specs_modifySpec d f).symm
  · intro e _
    rw [spec_modifySpec]
    split
    · next he => rw [he.1, hname]
    · rfl
  · intro e _ s hs
    rw [spec_modifySpec]
    split
    · next he =>
      rw [he.1] at hs ⊢
      apply hscope s hs
    · apply hs

/-! ## New records -/

/-- A new scope gets a new identity and takes none of the old ones. -/
theorem persists_push_scope (t : Tree) (q : Scope) :
  t.Persists { t with scopes := t.scopes.push q }
  := by
  refine { t.persists_refl with scopes := ?_, scope := ?_ }
  · simp
  · intro s hs
    rw [scope_push, if_neg (Nat.ne_of_lt hs)]

/-- A new symbol gets a new identity and takes none of the old ones. -/
theorem persists_push_symbol (t : Tree) (y : Symbol) :
  t.Persists { t with symbols := t.symbols.push y }
  := by
  refine { t.persists_refl with symbols := ?_, symbol := ?_ }
  · simp
  · intro x hx
    rw [symbol_push, if_neg (Nat.ne_of_lt hx)]

/-- A new spec gets a new identity and takes none of the old ones. -/
theorem persists_push_spec (t : Tree) (e : DerivedTypeSpec) :
  t.Persists { t with specs := t.specs.push e }
  := by
  refine { t.persists_refl with specs := ?_, specName := ?_, specScope := ?_ }
  · simp
  · intro d hd
    rw [spec_push, if_neg (Nat.ne_of_lt hd)]
  · intro d hd s hs
    rw [spec_push, if_neg (Nat.ne_of_lt hd)]
    apply hs

/-- Trees with the same outline have the same scopes, symbols and specs, as far as these persist. -/
theorem persists_of_outline_eq (h : t'.outline = t.outline) :
  t.Persists t'
  := by
  have hspec (d : SpecId) : (t'.spec d).outline = (t.spec d).outline := by
    rw [← spec_outline, ← spec_outline, h]
  constructor
  · exact Nat.le_of_eq (congrArg Array.size (scopes_eq_of_outline_eq h)).symm
  · exact Nat.le_of_eq (size_symbols_eq_of_outline_eq h).symm
  · have hsize := congrArg (fun u => u.specs.size) h
    simp only [outline, Array.size_map] at hsize
    exact Nat.le_of_eq hsize.symm
  · intro s _
    rw [scope_eq_of_outline_eq h]
  · intro x _
    have horigin := congrArg Symbol.origin (outline_symbol_eq_of_outline_eq h x)
    apply horigin
  · intro d _
    have hname := congrArg DerivedTypeSpec.name (hspec d)
    apply hname
  · intro d _ s hs
    have hscope := congrArg DerivedTypeSpec.scope (hspec d)
    apply hscope.trans hs

/-! ## Operations -/

/-- No write takes away what exists or makes something else of it, and none binds a spec that is
bound already. -/
theorem persists_write {o : Operation} (hwrite : o.Writes t t') :
  t.Persists t'
  := by
  cases hwrite with
  | nest =>
    apply (t.persists_push_scope _).trans
    apply persists_modifyScope
    intro q
    rfl
  | enter =>
    apply (t.persists_push_symbol _).trans
    apply persists_modifyScope
    intro q
    rfl
  | introduce | find | findSymbol | findAround | remove | setDetails | addAttr | removeAttr =>
    apply persists_modifySymbol
    intro y
    rfl
  | erase | setImport | addImportName | addSubmodule | listSpec | addRange =>
    apply persists_modifyScope
    intro q
    rfl
  | makeSpec => apply persists_push_spec
  | bindSpec hfree =>
    apply persists_modifySpec
    · rfl
    · intro s hs
      -- the spec was not bound, so no binding is lost
      rw [hfree] at hs
      contradiction
  | addParam =>
    apply persists_modifySpec
    · rfl
    · intro s hs
      exact hs

/-- Whatever an operation writes, the scopes, symbols and specs that were there persist. -/
theorem persists_apply (t : Tree) (o : Operation) :
  t.Persists (o.apply t)
  := by
  apply Operation.apply_induction t.persists_refl
  intro u v hwrite hu
  apply hu.trans (persists_write hwrite)

/-- The removal of a name takes away its entry, and no symbol. -/
theorem persists_erase (t : Tree) (s : ScopeId) (name : Name) :
  t.Persists (t.erase s name).2
  := t.persists_apply (.erase s name)

/-! ## Valid operations -/

/-- What a declaration refers to exists ever after. -/
theorem Knows.persist {D : Details} (hD : t.Knows D) (h : t.Persists t') :
  t'.Knows D
  := by
  constructor
  · intro x hx
    apply h.hasSymbol (hD.1 x hx)
  · intro d hd
    apply h.hasSpec (hD.2 d hd)

namespace Operation

/-- An operation on identities that exist can as well be made later. -/
theorem Valid.persist {o : Operation} (ho : o.Valid t) (h : t.Persists t') :
  o.Valid t'
  := by
  cases o with
  | makeScope => exact ⟨h.hasScope ho.1, fun x hx => h.hasSymbol (ho.2 x hx)⟩
  | declare => exact ⟨h.hasScope ho.1, ho.2.persist h⟩
  | find | findSymbol | erase | setImport | addImportName | makeSpec | addRange =>
    exact h.hasScope ho
  | addSubmodule => exact ⟨h.hasScope ho.1, h.hasScope ho.2⟩
  | bindSpec => exact ⟨h.hasSpec ho.1, h.hasScope ho.2⟩
  | addParam => exact ⟨h.hasSpec ho.1, fun x hx => h.hasSymbol (ho.2 x hx)⟩
  | setDetails => exact ⟨h.hasSymbol ho.1, ho.2.persist h⟩
  | addAttr | removeAttr => exact h.hasSymbol ho

/-- What holds of a tree, and is kept by the writes of a valid operation, holds after it.  The
operation is valid at each of them. -/
theorem Valid.apply_induction {P : Tree → Prop} {o : Operation} (ho : o.Valid t) (h : P t)
    (hwrite : ∀ u v, o.Valid u → o.Writes u v → P u → P v) :
  P (o.apply t)
  := by
  have hvalid : o.Valid (o.apply t) ∧ P (o.apply t) := by
    apply Operation.apply_induction (P := fun u => o.Valid u ∧ P u) ⟨ho, h⟩
    rintro u v huv ⟨hu, hP⟩
    exact ⟨hu.persist (persists_write huv), hwrite u v hu huv hP⟩
  exact hvalid.2

end Operation

end Tree

end FortranScope
