import FortranScope.Proofs.Tree.Coherence
import Mathlib.Logic.Relation
import Mathlib.Tactic.ByContra

/-!
# The order in which scopes are visited

`Tree.walk` lists the scopes from the global one inward.  Each of them but the first comes after
its parent, and in a coherent tree none is left out.  `Tree.visits` lists the symbols in the
tables of these scopes: those of the surrounding scopes come first, and those of a scope in the
order of their declaration.
-/

namespace FortranScope.Tree

variable {t : Tree}

/-! ## Every scope -/

/-- A scope directly inside one that a walk gets to is reached by the walk one level deeper. -/
theorem mem_descendants_succ {p q s : ScopeId} {depth : Nat} (hp : p ∈ t.descendants depth q)
    (hs : s ∈ (t.scope p).children) :
  s ∈ t.descendants (depth + 1) q
  := by
  induction depth generalizing q with
  | zero =>
    obtain rfl := List.mem_singleton.mp hp
    apply List.mem_cons_of_mem
    exact List.mem_flatMap.mpr ⟨s, hs, List.mem_singleton.mpr rfl⟩
  | succ depth ih =>
    apply List.mem_cons_of_mem
    rcases List.mem_cons.mp hp with rfl | hp
    · exact List.mem_flatMap.mpr ⟨s, hs, List.mem_cons_self⟩
    · obtain ⟨c, hc, hp⟩ := List.mem_flatMap.mp hp
      exact List.mem_flatMap.mpr ⟨c, hc, ih hp⟩

/-- A walk begins with the scope that it starts from. -/
theorem self_mem_descendants (t : Tree) (depth : Nat) (s : ScopeId) :
  s ∈ t.descendants depth s
  := by
  cases depth <;> apply List.mem_cons_self

/-- A scope is not deeper than its number. -/
theorem Coherent.mem_descendants (h : t.Coherent) {s : ScopeId} (hs : t.HasScope s) {depth : Nat}
    (hdepth : s.index ≤ depth) :
  s ∈ t.descendants depth .global
  := by
  induction depth generalizing s with
  | zero =>
    obtain rfl : s = .global := by
      obtain ⟨i⟩ := s
      exact congrArg ScopeId.mk (Nat.le_zero.mp hdepth)
    apply self_mem_descendants
  | succ depth ih =>
    by_cases hglobal : s = .global
    · rw [hglobal]
      apply self_mem_descendants
    · obtain ⟨p, hparent, hlt⟩ := h.parent s hs hglobal
      have hp : p ∈ t.descendants depth .global := by
        apply ih (Nat.lt_trans hlt hs)
        omega
      apply mem_descendants_succ hp
      exact (h.children p s).mpr ⟨hs, hparent⟩

theorem Coherent.mem_walk (h : t.Coherent) {s : ScopeId} (hs : t.HasScope s) :
  s ∈ t.walk
  := h.mem_descendants hs (Nat.le_of_lt hs)

/-! ## Parents first -/

/-- An element of a concatenation is one of some part, behind the parts before that one. -/
theorem exists_of_flatMap_eq {α β : Type} {f : α → List β} {xs : List α} {before after : List β}
    {b : β} (h : xs.flatMap f = before ++ b :: after) :
  ∃ ys x zs before' after', xs = ys ++ x :: zs ∧ f x = before' ++ b :: after'
    ∧ before = ys.flatMap f ++ before'
  := by
  induction xs generalizing before with
  | nil => simp at h
  | cons x xs ih =>
    have hskip (before' : List β) (hrest : xs.flatMap f = before' ++ b :: after)
        (hbefore : before = f x ++ before') :
        ∃ ys x' zs before' after', x :: xs = ys ++ x' :: zs ∧ f x' = before' ++ b :: after'
          ∧ before = ys.flatMap f ++ before' := by
      obtain ⟨ys, x', zs, before'', after'', hxs, hx', rfl⟩ := ih hrest
      refine ⟨x :: ys, x', zs, before'', after'', ?_, hx', ?_⟩
      · rw [hxs, List.cons_append]
      · rw [hbefore, List.flatMap_cons, List.append_assoc]
    rw [List.flatMap_cons, List.append_eq_append_iff] at h
    rcases h with ⟨before', hbefore, hrest⟩ | ⟨rest, hx, hrest⟩
    · exact hskip _ hrest hbefore
    · cases rest with
      | nil => exact hskip [] hrest.symm (by simpa using hx.symm)
      | cons b' rest =>
        obtain ⟨rfl, -⟩ := List.cons.inj hrest
        exact ⟨[], x, xs, before, rest, rfl, hx, rfl⟩

/-- Among the scopes inside `q` each one but `q` comes after its parent. -/
theorem exists_parent_before {q s : ScopeId} {depth : Nat} {before after : List ScopeId}
    (h : t.descendants depth q = before ++ s :: after) :
  before = [] ∧ s = q ∨ ∃ p ∈ before, s ∈ (t.scope p).children
  := by
  induction depth generalizing q before after with
  | zero =>
    left
    cases before with
    | nil => exact ⟨rfl, (List.cons.inj h).1.symm⟩
    | cons first before => simp [descendants] at h
  | succ depth ih =>
    cases before with
    | nil => exact .inl ⟨rfl, (List.cons.inj h).1.symm⟩
    | cons first before =>
      right
      obtain ⟨hfirst, hrest⟩ := List.cons.inj h
      obtain ⟨children, c, rest, before', after', hchildren, hc, rfl⟩ :=
        exists_of_flatMap_eq hrest
      rcases ih hc with ⟨-, rfl⟩ | ⟨p, hp, hs⟩
      · refine ⟨first, List.mem_cons_self, ?_⟩
        rw [← hfirst, hchildren]
        apply List.mem_append_right _ List.mem_cons_self
      · refine ⟨p, ?_, hs⟩
        apply List.mem_cons_of_mem _ (List.mem_append_right _ hp)

/-- `q` is the parent of `s`, or the parent of its parent, and so on. -/
def Encloses (t : Tree) (q s : ScopeId) : Prop :=
  Relation.TransGen (fun p s => (t.scope s).parent = some p) q s

/-- Whatever encloses a scope comes before it. -/
theorem Coherent.mem_before (h : t.Coherent) {q s : ScopeId} (hq : t.Encloses q s)
    {before after : List ScopeId} (hwalk : t.walk = before ++ s :: after) :
  q ∈ before
  := by
  have hparent {p s : ScopeId} (hp : (t.scope s).parent = some p) {before after : List ScopeId}
      (hwalk : t.walk = before ++ s :: after) : p ∈ before := by
    rcases exists_parent_before hwalk with ⟨-, rfl⟩ | ⟨p', hp', hs⟩
    · rw [h.rootParent] at hp
      contradiction
    · obtain rfl := Option.some.inj (((h.children p' s).mp hs).2.symm.trans hp)
      apply hp'
  induction hq generalizing before after with
  | single hp => apply hparent hp hwalk
  | @tail p s _ hp ih =>
    obtain ⟨first, second, rfl⟩ := List.append_of_mem (hparent hp hwalk)
    apply List.mem_append_left
    have hwalk' : t.walk = first ++ p :: (second ++ s :: after) := by
      rw [hwalk, List.append_assoc, List.cons_append]
    apply ih hwalk'

/-! ## Symbols -/

/-- The symbols in the tables of all scopes, in the order in which a resolution gets to them. -/
def visits (t : Tree) : List SymbolId := t.walk.flatMap fun s => (t.scope s).table.values

/-- A scope that does not exist has an empty table. -/
theorem hasScope_of_mem_values {s : ScopeId} {x : SymbolId}
    (hx : x ∈ (t.scope s).table.values) :
  t.HasScope s
  := by
  by_contra hs
  rw [scope_eq_default hs] at hx
  contradiction

/-- In a coherent tree the symbols visited are exactly those with an entry in some table. -/
theorem Coherent.mem_visits_iff (h : t.Coherent) {x : SymbolId} :
  x ∈ t.visits ↔ t.Tabled x
  := by
  constructor
  · intro hx
    obtain ⟨s, -, hx⟩ := List.mem_flatMap.mp hx
    exact ⟨s, hasScope_of_mem_values hx, hx⟩
  · rintro ⟨s, hs, hx⟩
    exact List.mem_flatMap.mpr ⟨s, h.mem_walk hs, hx⟩

/-- Which scopes lie inside another one is read off the outline. -/
theorem descendants_eq_of_outline_eq {t' : Tree} (h : t'.outline = t.outline) (depth : Nat)
    (s : ScopeId) :
  t'.descendants depth s = t.descendants depth s
  := by
  induction depth generalizing s with
  | zero => rfl
  | succ depth ih => rw [descendants, descendants, scope_eq_of_outline_eq h, funext ih]

/-- Which symbols are visited, and in which order, is read off the outline. -/
theorem visits_eq_of_outline_eq {t' : Tree} (h : t'.outline = t.outline) :
  t'.visits = t.visits
  := by
  rw [visits, visits, walk, walk, descendants_eq_of_outline_eq h, scopes_eq_of_outline_eq h,
    funext (scope_eq_of_outline_eq h)]

/-- The symbol `y` is declared in a scope around that of `x`, or in the scope of `x` before
`x`. -/
def Precedes (t : Tree) (y x : SymbolId) : Prop :=
  t.Encloses (t.symbol y).owner (t.symbol x).owner
    ∨ (t.symbol y).owner = (t.symbol x).owner ∧ y.index < x.index

/-- A symbol that precedes `x` and still has its entry is visited before `x`: either its scope is
walked earlier, or it stands earlier in the same table. -/
theorem Coherent.mem_visits_before (h : t.Coherent) {x y : SymbolId}
    (hy : y ∈ (t.scope (t.symbol y).owner).table.values) (hxy : t.Precedes y x)
    {before after : List SymbolId} (hvisits : t.visits = before ++ x :: after) :
  y ∈ before
  := by
  obtain ⟨scopes, s, _, values, rest, hwalk, hvalues, rfl⟩ := exists_of_flatMap_eq hvisits
  have hx : (t.symbol x).owner = s := by
    apply h.owner
    rw [hvalues]
    apply List.mem_append_right _ List.mem_cons_self
  rcases hxy with hencloses | ⟨howner, hlt⟩
  · apply List.mem_append_left
    rw [hx] at hencloses
    exact List.mem_flatMap.mpr ⟨_, h.mem_before hencloses hwalk, hy⟩
  · apply List.mem_append_right
    have hsorted := h.sorted s
    rw [howner, hx, hvalues] at hy
    rw [hvalues, List.pairwise_append, List.pairwise_cons] at hsorted
    rcases List.mem_append.mp hy with hbefore | hafter
    · apply hbefore
    · rcases List.mem_cons.mp hafter with rfl | hafter
      · exact absurd hlt (Nat.lt_irrefl _)
      · exact absurd (hsorted.2.1.1 y hafter) (Nat.not_lt.mpr (Nat.le_of_lt hlt))

end FortranScope.Tree
