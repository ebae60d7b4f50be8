import FortranScope.Proofs.Guarded.Computation
import FortranScope.Proofs.Session.Integrity

/-!
# Guarded look-ups

A look-up goes from a scope outward, or inward for a place of the source, as far as the links of
the tree lead it.  In a linked tree they always lead to something that exists, and the global scope
is the only one without a parent, where no look-up asks for one.  So every look-up comes to an end.
-/

namespace FortranScope

/-! ## Linked trees -/

/-- Whatever is looked at in the course of a look-up or of a resolution exists. -/
structure Tree.Linked (t : Tree) : Prop extends Coherent t where
  kind : ∀ s, t.HasScope s → ((t.scope s).kind = .global ↔ s = .global)
  introducer : ∀ s x, (t.scope s).symbol = some x → t.HasSymbol x
  ownerExists : ∀ x, t.HasSymbol x → t.HasScope (t.symbol x).owner
  specExists : ∀ x d, (t.symbol x).details.spec? = some d → t.HasSpec d

namespace Tree

variable {t t' : Tree}

/-- A coherent and sound tree is linked. -/
theorem linked_of_sound (hcoherent : t.Coherent) (hsound : t.Sound) :
  t.Linked
  where
  toCoherent := hcoherent
  kind s hs := (hsound.scope s hs).kind
  introducer s x hx := by
    by_cases hs : t.HasScope s
    · apply (hsound.scope s hs).symbol x hx
    · rw [scope_eq_default hs] at hx
      contradiction
  ownerExists x hx := (hsound.symbol x hx).owner
  specExists x d hd := by
    by_cases hx : t.HasSymbol x
    · apply (hsound.symbol x hx).details.2
      rw [hd]
      apply List.mem_singleton_self
    · rw [symbol_eq_default hx] at hd
      contradiction

/-- Deferred expressions and occurrences do not matter. -/
theorem Linked.of_outline_eq (h : t.Linked) (houtline : t'.outline = t.outline) :
  t'.Linked
  := by
  have hscope (s : ScopeId) : t'.HasScope s ↔ t.HasScope s := by
    rw [HasScope, HasScope, scopes_eq_of_outline_eq houtline]
  constructor
  · apply h.toCoherent.of_alike (alike_of_outline_eq houtline)
  · intro s hs
    rw [scope_eq_of_outline_eq houtline]
    apply h.kind s ((hscope s).mp hs)
  · intro s x hx
    rw [scope_eq_of_outline_eq houtline] at hx
    rw [hasSymbol_iff_of_outline_eq houtline]
    apply h.introducer s x hx
  · intro x hx
    rw [owner_eq_of_outline_eq houtline, hscope]
    apply h.ownerExists x ((hasSymbol_iff_of_outline_eq houtline x).mp hx)
  · intro x d hd
    rw [hasSpec_iff_of_outline_eq houtline]
    apply h.specExists x d
    rw [← hd]
    apply (Details.spec?_eq_of_outline_eq (outline_details_eq_of_outline_eq houtline x)).symm

/-- A symbol may lose its details. -/
theorem Linked.hide (h : t.Linked) (x : SymbolId) :
  (t.setDetails x .unknown).Linked
  := by
  have hsymbol (y : SymbolId) : (t.setDetails x .unknown).HasSymbol y ↔ t.HasSymbol y := by
    rw [HasSymbol, HasSymbol, size_symbols_setDetails]
  constructor
  · apply h.toCoherent.of_alike
    apply alike_modifySymbol
    · intro y
      rfl
    · intro y
      rfl
  · apply h.kind
  · intro s y hy
    apply (hsymbol y).mpr (h.introducer s y hy)
  · intro y hy
    have howner : ((t.setDetails x .unknown).symbol y).owner = (t.symbol y).owner := by
      apply field_modifySymbol Symbol.owner
      intro z
      rfl
    rw [howner]
    apply h.ownerExists y ((hsymbol y).mp hy)
  · intro y d hd
    rw [setDetails, symbol_modifySymbol] at hd
    split at hd
    · contradiction
    · apply h.specExists y d hd

end Tree

namespace Guarded

/-! ## Records -/

/-- The scope `s`, which has to exist. -/
def scope (s : ScopeId) : Guarded Tree Scope := do
  let t ← get
  match t.scopes[s.index]? with
  | some q => pure q
  | none => throw (.noScope s)

/-- The symbol `x`, which has to exist. -/
def symbol (x : SymbolId) : Guarded Tree Symbol := do
  let t ← get
  match t.symbols[x.index]? with
  | some y => pure y
  | none => throw (.noSymbol x)

/-- The derived type spec `d`, which has to exist. -/
def spec (d : SpecId) : Guarded Tree DerivedTypeSpec := do
  let t ← get
  match t.specs[d.index]? with
  | some e => pure e
  | none => throw (.noSpec d)

/-- The scope around `s`, which may not be the global scope. -/
def parent (s : ScopeId) : Guarded Tree ScopeId := do
  let q ← scope s
  match q.parent with
  | some p => pure p
  | none => throw (.defect (.noParent q.kind))

/-! ## Names -/

/-- Notes the use of a symbol. -/
def use (x : SymbolId) (span : Span) : Guarded Tree Unit := do
  let _ ← symbol x
  modify fun t => t.addOccurrence x .used span

/-- Looks a name up in one scope. -/
def find (s : ScopeId) (name : Name) : Guarded Tree (Option SymbolId) := do
  let q ← scope s
  match q.table.get? name.text with
  | none => pure none
  | some x =>
    use x name.span
    pure (some x)

/-- The policy of a scope. -/
def importPolicy (s : ScopeId) : Guarded Tree ImportPolicy := do
  let q ← scope s
  match q.importPolicy with
  | some policy => pure policy
  | none =>
    match q.symbol with
    | none => pure .default
    | some x =>
      let y ← symbol x
      pure (if y.details.isInterfaceBody then .none else .default)

/-- Whether a scope lets a name in. -/
def canImport (s : ScopeId) (text : String) : Guarded Tree Bool := do
  let q ← scope s
  if q.kind = .global then pure false
  else
    match ← importPolicy s with
    | .none => pure false
    | .all => pure true
    | .default => pure true
    | .only =>
      let q ← scope s
      pure (text ∈ q.importNames)

end Guarded

/-! ## From scope to scope -/

namespace ScopeId

open Guarded

/-- Looks a name up from a scope outward. -/
def findSymbol (s : ScopeId) (name : Name) : Guarded Tree (Option SymbolId) := do
  let q ← scope s
  if q.kind = .derivedType then
    let p ← parent s
    p |>.findSymbol name
  else
    match ← find s name with
    | some x => pure (some x)
    | none =>
      if ← canImport s name.text then
        let p ← parent s
        p |>.findSymbol name
      else pure none
partial_fixpoint

/-- Looks for the innermost scope around a span, from a scope inward. -/
def findScope (s : ScopeId) (span : Span) : Guarded Tree (Option ScopeId) := do
  let q ← scope s
  if q.range.any fun range => range.Contains span then
    match ← q.children.findSomeM? fun c => c |>.findScope span with
    | some found => pure (some found)
    | none => pure (some s)
  else pure none
partial_fixpoint

end ScopeId

namespace Guarded

/-- Looks a name up as an expression does. -/
def denoted (s : ScopeId) (name : Name) : Guarded Tree (Option SymbolId) := do
  let q ← scope s
  if q.kind = .derivedType then
    match ← find s name with
    | some x => pure (some x)
    | none => s.findSymbol name
  else s.findSymbol name

/-! ## Look-ups come to an end -/

section

variable {t : Tree} {s : ScopeId} {x : SymbolId}

/-- A scope that exists can be asked for. -/
theorem ends_scope (hs : t.HasScope s) :
  (scope s).Ends t (t.scope s) t
  := by
  apply (ends_get t).bind
  rw [Tree.scope, Array.getElem?_eq_getElem hs]
  apply ends_pure

/-- A symbol that exists can be asked for. -/
theorem ends_symbol (hx : t.HasSymbol x) :
  (symbol x).Ends t (t.symbol x) t
  := by
  apply (ends_get t).bind
  rw [Tree.symbol, Array.getElem?_eq_getElem hx]
  apply ends_pure

/-- A spec that exists can be asked for. -/
theorem ends_spec {d : SpecId} (hd : t.HasSpec d) :
  (spec d).Ends t (t.spec d) t
  := by
  apply (ends_get t).bind
  rw [Tree.spec, Array.getElem?_eq_getElem hd]
  apply ends_pure

/-- A scope with a parent can be asked for it. -/
theorem ends_parent (hs : t.HasScope s) {p : ScopeId} (hp : (t.scope s).parent = some p) :
  (parent s).Ends t p t
  := by
  apply (ends_scope hs).bind
  rw [hp]
  apply ends_pure

/-- There is no scope around the global one. -/
theorem aborts_parent_global (h : t.Linked) :
  (parent .global).Aborts t (.defect (.noParent .global))
  := by
  apply (ends_scope h.root).bind_aborts
  rw [h.rootParent, (h.kind .global h.root).mpr rfl]
  apply aborts_throw

/-- A use of a symbol that exists can be noted. -/
theorem ends_use (hx : t.HasSymbol x) (span : Span) :
  (use x span).Ends t () (t.addOccurrence x .used span)
  := by
  apply (ends_symbol hx).bind
  apply ends_modify

/-- A look-up in one scope comes to an end, since what a table holds exists. -/
theorem ends_find (h : t.Linked) (hs : t.HasScope s) (name : Name) :
  (find s name).Ends t (t.find s name).1 (t.find s name).2
  := by
  apply (ends_scope hs).bind
  rw [Tree.find]
  cases hx : t.local? s name.text with
  | none =>
    rw [Tree.local?] at hx
    rw [hx]
    apply ends_pure
  | some x =>
    have hsymbol := h.hasSymbol_of_local? hx
    rw [Tree.local?] at hx
    rw [hx]
    apply (ends_use hsymbol name.span).bind
    apply ends_pure

/-- The policy in force is found, since the symbol that introduced a scope exists. -/
theorem ends_importPolicy (h : t.Linked) (hs : t.HasScope s) :
  (importPolicy s).Ends t (t.importPolicy s) t
  := by
  apply (ends_scope hs).bind
  rw [Tree.importPolicy, Tree.isInterfaceBody]
  cases (t.scope s).importPolicy with
  | some policy => apply ends_pure
  | none =>
    cases hx : (t.scope s).symbol with
    | none => apply ends_pure
    | some x =>
      apply (ends_symbol (h.introducer s x hx)).bind
      apply ends_pure

/-- Whether a name is let in is found out, without asking for the scope around. -/
theorem ends_canImport (h : t.Linked) (hs : t.HasScope s) (text : String) :
  (canImport s text).Ends t (t.canImport s text) t
  := by
  apply (ends_scope hs).bind
  rw [Tree.canImport]
  by_cases hkind : (t.scope s).kind = .global
  · rw [if_pos hkind, if_pos hkind]
    apply ends_pure
  · rw [if_neg hkind, if_neg hkind]
    apply (ends_importPolicy h hs).bind
    cases t.importPolicy s with
    | only =>
      apply (ends_scope hs).bind
      apply ends_pure
    | _ => apply ends_pure

/-- If a scope lets a name in, the look-up has to come to an end from the scope around it. -/
theorem ends_findSymbol_of_parent (h : t.Linked) (hs : t.HasScope s) {name : Name}
    (hkind : (t.scope s).kind ≠ .derivedType) {outer : List ScopeId}
    (houter : t.canImport s name.text = true → ∃ p, (t.scope s).parent = some p
      ∧ (p.findSymbol name).Ends t (t.associated? name.text outer)
        (t.useIfFound name (t.associated? name.text outer)).2) :
  (s.findSymbol name).Ends t (t.associated? name.text (s :: outer))
    (t.useIfFound name (t.associated? name.text (s :: outer))).2
  := by
  have hfind := ends_find h hs name
  have hcan := ends_canImport h hs name.text
  rw [ScopeId.findSymbol, Tree.associated?, if_neg hkind]
  apply (ends_scope hs).bind
  rw [if_neg hkind]
  apply hfind.bind
  rw [Tree.find]
  cases t.local? s name.text with
  | some x => apply ends_pure
  | none =>
    apply hcan.bind
    cases himport : t.canImport s name.text with
    | false => apply ends_pure
    | true =>
      obtain ⟨p, hparent, hp⟩ := houter himport
      apply (ends_parent hs hparent).bind
      apply hp

/-- A look-up never gets beyond the scope that has no parent: that is the global scope, which is
not the definition of a derived type and lets no name in. -/
theorem ends_findSymbol_of_outward (h : t.Linked) (hs : t.HasScope s) (name : Name)
    {chain : List ScopeId} (hchain : t.Outward s chain) :
  (s.findSymbol name).Ends t (t.associated? name.text chain)
    (t.useIfFound name (t.associated? name.text chain)).2
  := by
  induction hchain with
  | @outermost s hparent =>
    have hkind : (t.scope s).kind = .global :=
      (h.kind s hs).mpr (h.eq_global_of_parent_eq_none hs hparent)
    apply ends_findSymbol_of_parent h hs
    · rw [hkind]
      decide
    · intro himport
      rw [Tree.canImport, if_pos hkind] at himport
      contradiction
  | @inner s p outer hparent _ ih =>
    have houter := ih (h.hasScope_of_parent hs hparent)
    by_cases hkind : (t.scope s).kind = .derivedType
    · rw [ScopeId.findSymbol, Tree.associated?, if_pos hkind]
      apply (ends_scope hs).bind
      rw [if_pos hkind]
      apply (ends_parent hs hparent).bind
      apply houter
    · apply ends_findSymbol_of_parent h hs hkind
      intro _
      exact ⟨p, hparent, houter⟩

/-- A look-up outward from a scope that exists comes to an end. -/
theorem ends_findSymbol (h : t.Linked) (hs : t.HasScope s) (name : Name) :
  (s.findSymbol name).Ends t (t.findSymbol s name).1 (t.findSymbol s name).2
  := by
  rw [Tree.findSymbol, Tree.fst_useIfFound, Tree.visible?]
  apply ends_findSymbol_of_outward h hs name (h.outward_hosts hs)

/-- The look-up of an expression comes to an end, also from the definition of a derived type, whose
own names are looked at first. -/
theorem ends_denoted (h : t.Linked) (hs : t.HasScope s) (name : Name) :
  (denoted s name).Ends t (t.denoted? s name.text)
    (t.useIfFound name (t.denoted? s name.text)).2
  := by
  have hfind := ends_find h hs name
  have hsymbol := ends_findSymbol h hs name
  rw [Tree.findSymbol, Tree.fst_useIfFound] at hsymbol
  apply (ends_scope hs).bind
  rw [Tree.denoted?]
  by_cases hkind : (t.scope s).kind = .derivedType
  · rw [if_pos hkind, if_pos hkind]
    apply hfind.bind
    rw [Tree.find]
    cases t.local? s name.text with
    | some x => apply ends_pure
    | none => apply hsymbol
  · rw [if_neg hkind, if_neg hkind]
    apply hsymbol

/-- A search through a list comes to an end if it does at every element. -/
theorem ends_findSomeM? {α β : Type} {f : α → Guarded Tree (Option β)} {g : α → Option β}
    {xs : List α} (h : ∀ a ∈ xs, (f a).Ends t (g a) t) :
  (xs.findSomeM? f).Ends t (xs.findSome? g) t
  := by
  induction xs with
  | nil => apply ends_pure
  | cons a xs ih =>
    obtain ⟨hfirst, hrest⟩ := List.forall_mem_cons.mp h
    rw [List.findSomeM?, List.findSome?]
    apply hfirst.bind
    cases g a with
    | some b => apply ends_pure
    | none => apply ih hrest

/-- The scopes inside are searched from the first one to the first one that covers the span. -/
theorem findSome?_findScope (t : Tree) (span : Span) (scopes : List ScopeId) :
  (scopes.findSome? fun c => t.findScope c span)
    = (scopes.find? (t.covers span)).map (t.innermost span)
  := by
  induction scopes with
  | nil => rfl
  | cons c scopes ih =>
    rw [List.findSome?, List.find?, Tree.findScope]
    cases t.covers span c with
    | true => rfl
    | false => apply ih

/-- The search for the innermost scope comes to an end: it goes from older to younger scopes. -/
theorem ends_findScope (h : t.Linked) (hs : t.HasScope s) (span : Span) :
  (s.findScope span).Ends t (t.findScope s span) t
  := by
  -- a scope is younger than the one around it, so fewer and fewer are left
  induction hleft : t.scopes.size - s.index using Nat.strongRecOn generalizing s with
  | ind left ih =>
    have hchildren : ∀ c ∈ (t.scope s).children,
        (c.findScope span).Ends t (t.findScope c span) t := by
      intro c hc
      obtain ⟨hexists, hparent⟩ := (h.children s c).mp hc
      have hlt := h.index_parent_lt hexists hparent
      have hc : c.index < t.scopes.size := hexists
      apply ih (t.scopes.size - c.index) _ hexists rfl
      omega
    rw [ScopeId.findScope]
    apply (ends_scope hs).bind
    rw [Tree.findScope, Tree.covers]
    cases hcovers : (t.scope s).range.any fun range => range.Contains span with
    | false => apply ends_pure
    | true =>
      apply (ends_findSomeM? hchildren).bind
      rw [findSome?_findScope, Tree.innermost]
      cases hfind : (t.scope s).children.find? (t.covers span) with
      | none => apply ends_pure
      | some c =>
        obtain ⟨hexists, hparent⟩ := (h.children s c).mp (List.mem_of_find?_eq_some hfind)
        have hlt := h.index_parent_lt hexists hparent
        simp only [if_pos (show s.index < c.index ∧ c.index < t.scopes.size from ⟨hlt, hexists⟩)]
        apply ends_pure

end

end Guarded

end FortranScope
