import FortranScope.Proofs.Tree.Association
import Mathlib.Data.List.Nodup
import Mathlib.Logic.Relation

/-!
# Trees with their children in another order

`Tree.Reorders` relates trees that differ only in the order of the children of scopes.  Such a tree
is visited in another order, but each scope once and after the scopes around it, and names have
the same meaning in both.
-/

namespace FortranScope.Tree

variable {t t' : Tree}

/-! ## Scopes around a scope -/

/-- The chain of a scope leads outward. -/
theorem eq_or_encloses_of_mem_hosts {q s : ScopeId} (hq : q ∈ t.hosts s) :
  q = s ∨ t.Encloses q s
  := by
  induction hi : s.index using Nat.strongRecOn generalizing s with
  | ind i ih =>
    rw [hosts] at hq
    split at hq
    · exact .inl (List.mem_singleton.mp hq)
    · next p hp =>
      split at hq
      · next hlt =>
        rcases List.mem_cons.mp hq with rfl | hq
        · exact .inl rfl
        · right
          rcases ih p.index (hi ▸ hlt) hq rfl with rfl | hencloses
          · exact Relation.TransGen.single hp
          · exact hencloses.tail hp
      · exact .inl (List.mem_singleton.mp hq)

/-- A scope with a parent exists. -/
theorem hasScope_of_parent_eq_some {p s : ScopeId} (h : (t.scope s).parent = some p) :
  t.HasScope s
  := by
  by_contra hs
  rw [scope_eq_default hs] at h
  contradiction

/-- A scope that another one encloses exists. -/
theorem Encloses.hasScope {q s : ScopeId} (h : t.Encloses q s) :
  t.HasScope s
  := by
  cases h with
  | single h => apply hasScope_of_parent_eq_some h
  | tail _ h => apply hasScope_of_parent_eq_some h

/-- A scope is younger than all that enclose it. -/
theorem Coherent.index_lt_of_encloses (h : t.Coherent) {q s : ScopeId} (hq : t.Encloses q s) :
  q.index < s.index
  := by
  induction hq with
  | single hp => apply h.index_parent_lt (hasScope_of_parent_eq_some hp) hp
  | tail _ hp ih => apply ih.trans (h.index_parent_lt (hasScope_of_parent_eq_some hp) hp)

/-- Whatever encloses a scope is its parent or encloses the parent. -/
theorem Encloses.eq_or_encloses {p q s : ScopeId} (h : t.Encloses q s)
    (hp : (t.scope s).parent = some p) :
  q = p ∨ t.Encloses q p
  := by
  cases h with
  | single h => exact .inl (Option.some.inj (h.symm.trans hp))
  | tail hq h =>
    obtain rfl := Option.some.inj (h.symm.trans hp)
    exact .inr hq

/-- Of two scopes that enclose a third one, one encloses the other. -/
theorem Encloses.total {p q s : ScopeId} (hp : t.Encloses p s) (hq : t.Encloses q s) :
  p = q ∨ t.Encloses p q ∨ t.Encloses q p
  := by
  induction hp with
  | single hp =>
    rcases hq.eq_or_encloses hp with rfl | hq
    · exact .inl rfl
    · exact .inr (.inr hq)
  | @tail r s hpr hr ih =>
    rcases hq.eq_or_encloses hr with rfl | hq
    · exact .inr (.inl hpr)
    · apply ih hq

/-- No child of a scope encloses another one. -/
theorem Coherent.not_encloses_sibling (h : t.Coherent) {q c c' : ScopeId}
    (hc : c ∈ (t.scope q).children) (hc' : c' ∈ (t.scope q).children) :
  ¬ t.Encloses c c'
  := by
  intro hcc'
  obtain ⟨hscope, hparent⟩ := (h.children q c).mp hc
  obtain ⟨-, hparent'⟩ := (h.children q c').mp hc'
  have hlt := h.index_parent_lt hscope hparent
  rcases hcc'.eq_or_encloses hparent' with rfl | hencloses
  · exact Nat.lt_irrefl _ hlt
  · exact Nat.lt_asymm hlt (h.index_lt_of_encloses hencloses)

/-! ## Every scope once -/

/-- Going inward from `q` a walk gets only to `q` and to scopes that `q` encloses. -/
theorem Coherent.eq_or_encloses_of_mem_descendants (h : t.Coherent) {q s : ScopeId} {depth : Nat}
    (hs : s ∈ t.descendants depth q) :
  q = s ∨ t.Encloses q s
  := by
  induction depth generalizing q with
  | zero => exact .inl (List.mem_singleton.mp hs).symm
  | succ depth ih =>
    rcases List.mem_cons.mp hs with rfl | hs
    · exact .inl rfl
    · obtain ⟨c, hc, hs⟩ := List.mem_flatMap.mp hs
      have hparent : t.Encloses q c := Relation.TransGen.single ((h.children q c).mp hc).2
      right
      rcases ih hs with rfl | hcs
      · exact hparent
      · apply hparent.trans hcs

/-- In a coherent tree the walk gets to exactly the scopes that exist. -/
theorem Coherent.mem_walk_iff (h : t.Coherent) {s : ScopeId} :
  s ∈ t.walk ↔ t.HasScope s
  := by
  constructor
  · intro hs
    rcases h.eq_or_encloses_of_mem_descendants hs with rfl | hencloses
    · exact h.root
    · apply hencloses.hasScope
  · apply h.mem_walk

/-- Scopes inside different children of a scope are different. -/
theorem Coherent.eq_of_mem_descendants (h : t.Coherent) {q c c' s : ScopeId}
    (hc : c ∈ (t.scope q).children) (hc' : c' ∈ (t.scope q).children) {depth : Nat}
    (hs : s ∈ t.descendants depth c) (hs' : s ∈ t.descendants depth c') :
  c = c'
  := by
  have hcc' := h.not_encloses_sibling hc hc'
  have hc'c := h.not_encloses_sibling hc' hc
  rcases h.eq_or_encloses_of_mem_descendants hs with rfl | hs
  · rcases h.eq_or_encloses_of_mem_descendants hs' with heq | hencloses
    · exact heq.symm
    · exact absurd hencloses hc'c
  · rcases h.eq_or_encloses_of_mem_descendants hs' with rfl | hs'
    · exact absurd hs hcc'
    · rcases hs.total hs' with heq | hencloses | hencloses
      · exact heq
      · exact absurd hencloses hcc'
      · exact absurd hencloses hc'c

/-- If no scope lists a child twice, no walk gets to a scope twice. -/
theorem Coherent.nodup_descendants (h : t.Coherent) (hchildren : ∀ q, (t.scope q).children.Nodup)
    (depth : Nat) (q : ScopeId) :
  (t.descendants depth q).Nodup
  := by
  induction depth generalizing q with
  | zero => apply List.nodup_singleton
  | succ depth ih =>
    rw [descendants, List.nodup_cons, List.nodup_flatMap]
    refine ⟨?_, fun c _ => ih c, ?_⟩
    · intro hq
      obtain ⟨c, hc, hq⟩ := List.mem_flatMap.mp hq
      obtain ⟨hscope, hparent⟩ := (h.children q c).mp hc
      have hlt := h.index_parent_lt hscope hparent
      rcases h.eq_or_encloses_of_mem_descendants hq with rfl | hencloses
      · exact Nat.lt_irrefl _ hlt
      · exact Nat.lt_asymm hlt (h.index_lt_of_encloses hencloses)
    · apply (hchildren q).pairwise_of_forall_ne
      intro c hc c' hc' hne s hs hs'
      exact hne (h.eq_of_mem_descendants hc hc' hs hs')

/-- A scope is not visited before those that enclose it. -/
theorem Coherent.pairwise_walk (h : t.Coherent) (hchildren : ∀ q, (t.scope q).children.Nodup) :
  t.walk.Pairwise fun s s' => ¬ t.Encloses s' s
  := by
  rw [List.pairwise_iff_forall_sublist]
  intro s s' hsublist hencloses
  obtain ⟨first, second, hwalk, hs, hs'⟩ := List.cons_sublist_iff.mp hsublist
  have hnodup : t.walk.Nodup := h.nodup_descendants hchildren _ _
  obtain ⟨before, after, rfl⟩ := List.append_of_mem hs
  have hbefore : s' ∈ before := by
    apply h.mem_before hencloses
    rw [hwalk, List.append_assoc]
    rfl
  rw [hwalk] at hnodup
  apply List.disjoint_of_nodup_append hnodup (List.mem_append_left _ hbefore)
  apply List.singleton_sublist.mp hs'

/-! ## Children in another order -/

/-- The tree without the children of its scopes. -/
def childless (t : Tree) : Tree := { t with scopes := t.scopes.map Scope.childless }

/-- Without children a scope is read as before, but for its children. -/
theorem scope_childless (t : Tree) (s : ScopeId) :
  t.childless.scope s = (t.scope s).childless
  := by
  rw [scope, scope, childless, Array.getElem?_map]
  cases t.scopes[s.index]? <;> rfl

/-- What a name denotes does not depend on the children of any scope. -/
theorem denoted?_childless (t : Tree) (s : ScopeId) (text : String) :
  t.childless.denoted? s text = t.denoted? s text
  := by
  apply denoted?_congr
  · intro s
    rw [scope_childless]
    rfl
  · intro x
    rfl

/-- `t'` is `t` with the children of its scopes in another order. -/
structure Reorders (t t' : Tree) : Prop where
  childless : t'.childless = t.childless
  children : ∀ s, (t'.scope s).children.Perm (t.scope s).children

namespace Reorders

theorem refl (t : Tree) :
  t.Reorders t
  := by
  constructor
  · rfl
  · intro s
    apply List.Perm.refl

theorem symm (h : t.Reorders t') :
  t'.Reorders t
  := by
  constructor
  · exact h.childless.symm
  · intro s
    exact (h.children s).symm

theorem trans {t'' : Tree} (h : t.Reorders t') (h' : t'.Reorders t'') :
  t.Reorders t''
  := by
  constructor
  · rw [h'.childless, h.childless]
  · intro s
    exact (h'.children s).trans (h.children s)

variable (h : t.Reorders t')

include h

/-- Reordering keeps the number of scopes. -/
theorem size :
  t'.scopes.size = t.scopes.size
  := by
  have hsize := congrArg (fun u => u.scopes.size) h.childless
  simpa [Tree.childless] using hsize

theorem symbol (x : SymbolId) :
  t'.symbol x = t.symbol x
  := congrArg (fun u => u.symbol x) h.childless

theorem hasSymbol_iff (x : SymbolId) :
  t'.HasSymbol x ↔ t.HasSymbol x
  := iff_of_eq (congrArg (fun u => u.HasSymbol x) h.childless)

/-- A reordered scope differs from the old one at most in its children. -/
theorem scope (s : ScopeId) :
  (t'.scope s).childless = (t.scope s).childless
  := by
  rw [← scope_childless, ← scope_childless, h.childless]

theorem parent (s : ScopeId) :
  (t'.scope s).parent = (t.scope s).parent
  := Scope.field_congr Scope.parent (fun _ => rfl) (h.scope s)

theorem table (s : ScopeId) :
  (t'.scope s).table = (t.scope s).table
  := Scope.field_congr Scope.table (fun _ => rfl) (h.scope s)

/-- Reordering keeps the scopes that exist. -/
theorem hasScope_iff (s : ScopeId) :
  t'.HasScope s ↔ t.HasScope s
  := by
  rw [HasScope, HasScope, h.size]

/-- Reordering keeps which scopes enclose which. -/
theorem encloses_iff (q s : ScopeId) :
  t'.Encloses q s ↔ t.Encloses q s
  := by
  simp only [Encloses, h.parent]

/-- Reordering keeps the symbols that have an entry. -/
theorem tabled_iff (x : SymbolId) :
  t'.Tabled x ↔ t.Tabled x
  := by
  simp only [Tabled, h.hasScope_iff, h.table]

/-- Coherence says which scopes are the children of another one, and not in which order. -/
theorem coherent (ht : t.Coherent) :
  t'.Coherent
  := by
  constructor
  · apply (h.hasScope_iff _).mpr ht.root
  · rw [h.parent, ht.rootParent]
  · intro s hs
    rw [h.parent]
    apply ht.parent s ((h.hasScope_iff s).mp hs)
  · intro p s
    rw [(h.children p).mem_iff, h.parent, h.hasScope_iff, ht.children]
  · intro s entry hentry
    rw [h.table] at hentry
    rw [h.hasSymbol_iff, h.symbol]
    apply ht.entries s entry hentry
  · intro s
    rw [h.table]
    apply ht.sorted

/-- If no scope lists a child twice, neither does a reordered one. -/
theorem nodup_children (ht : ∀ q, (t.scope q).children.Nodup) (q : ScopeId) :
  (t'.scope q).children.Nodup
  := (h.children q).nodup_iff.mpr (ht q)

end Reorders

/-- A change of nothing but children is not seen once the children are left out. -/
theorem childless_modifyScope (t : Tree) (s : ScopeId) {f : Scope → Scope}
    (hf : ∀ q, (f q).childless = q.childless) :
  (t.modifyScope s f).childless = t.childless
  := by
  have hscopes : (t.scopes.modify s.index f).map Scope.childless
      = t.scopes.map Scope.childless := by
    apply Array.ext
    · simp
    · intro i hi hi'
      simp only [Array.getElem_map, Array.getElem_modify]
      split
      · apply hf
      · rfl
  exact congrArg (fun scopes => { t with scopes := scopes }) hscopes

/-- The children of a single scope can be put into another order. -/
theorem reorders_modifyScope (t : Tree) (s : ScopeId) {f : List ScopeId → List ScopeId}
    (hf : ∀ children, (f children).Perm children) :
  t.Reorders (t.modifyScope s fun q => { q with children := f q.children })
  := by
  constructor
  · apply t.childless_modifyScope
    intro q
    rfl
  · intro r
    rw [scope_modifyScope]
    split
    · apply hf
    · apply List.Perm.refl

/-- The same scopes are visited, in another order. -/
theorem Coherent.perm_walk (h : t.Coherent) (hchildren : ∀ q, (t.scope q).children.Nodup)
    (hreorders : t.Reorders t') :
  t.walk.Perm t'.walk
  := by
  have h' := hreorders.coherent h
  rw [List.perm_ext_iff_of_nodup]
  · intro s
    rw [h.mem_walk_iff, h'.mem_walk_iff, hreorders.hasScope_iff]
  · apply h.nodup_descendants hchildren
  · apply h'.nodup_descendants (hreorders.nodup_children hchildren)

end FortranScope.Tree
