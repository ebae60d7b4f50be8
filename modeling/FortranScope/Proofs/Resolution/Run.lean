import FortranScope.Proofs.Resolution.Settled
import FortranScope.Proofs.Tree.Walk

/-!
# Resolutions

A resolution goes from symbol to symbol.  As the tables of scopes do not change on the way, the
symbols are known at the start, and in a coherent tree no table is left out.  All sessions that
can be reached have coherent trees, so after a resolution there is no expression left to settle
and another one does nothing.
-/

namespace FortranScope

/-! ## From symbol to symbol -/

namespace Pass

variable {p q : Pass}

/-- What is settled at a symbol stays settled. -/
theorem Settles.settledAt {A : Cell → Prop} (h : p.Settles A q) {x : SymbolId}
    (hx : p.tree.SettledAt x) :
  q.tree.SettledAt x
  := by
  rw [Tree.settledAt_iff] at hx ⊢
  intro c hc
  apply h.not_unresolved
  apply hx
  apply (Tree.belongs_iff_of_outline_eq h.outline x c).mp hc

/-- The expressions of some symbols. -/
theorem settles_foldl (p : Pass) (xs : List SymbolId) :
  p.Settles (fun c => ∃ x ∈ xs, p.tree.Belongs x c) (xs.foldl resolveSymbol p)
  := by
  induction xs generalizing p with
  | nil => apply Relation.ReflTransGen.refl
  | cons x xs ih =>
    have hfirst := p.settles_resolveSymbol x
    have hrest := ih (p.resolveSymbol x)
    simp only [Tree.belongs_iff_of_outline_eq hfirst.outline] at hrest
    apply Settles.trans
    · apply hfirst.mono
      intro c hc
      exact ⟨x, List.mem_cons_self, hc⟩
    · apply hrest.mono
      rintro c ⟨y, hy, hc⟩
      exact ⟨y, List.mem_cons_of_mem _ hy, hc⟩

/-- Every symbol that is visited is settled at the end. -/
theorem settledAt_foldl (p : Pass) {xs : List SymbolId} {x : SymbolId} (hx : x ∈ xs) :
  (xs.foldl resolveSymbol p).tree.SettledAt x
  := by
  induction xs generalizing p with
  | nil => contradiction
  | cons y xs ih =>
    rcases List.mem_cons.mp hx with rfl | hx
    · apply (settles_foldl (p.resolveSymbol x) xs).settledAt
      apply settledAt_resolveSymbol
    · apply ih _ hx

/-- Nothing is done at symbols where everything is settled. -/
theorem foldl_of_settledAt {xs : List SymbolId} (h : ∀ x ∈ xs, p.tree.SettledAt x) :
  xs.foldl resolveSymbol p = p
  := by
  induction xs with
  | nil => rfl
  | cons x xs ih =>
    obtain ⟨hfirst, hrest⟩ := List.forall_mem_cons.mp h
    rw [List.foldl_cons, resolveSymbol_of_settledAt hfirst, ih hrest]

/-- The tables of scopes stay, so going from scope to scope is going from symbol to symbol. -/
theorem foldl_resolveScope (p : Pass) (scopes : List ScopeId) :
  scopes.foldl resolveScope p
    = (scopes.flatMap fun s => (p.tree.scope s).table.values).foldl resolveSymbol p
  := by
  induction scopes generalizing p with
  | nil => rfl
  | cons s scopes ih =>
    have houtline := (p.settles_foldl (p.tree.scope s).table.values).outline
    rw [List.foldl_cons, ih, List.flatMap_cons, List.foldl_append]
    simp only [resolveScope, Tree.scope_eq_of_outline_eq houtline]

end Pass

namespace Session

/-- The pass that a resolution is. -/
def pass (r : Session) : Pass := r.context.tree.visits.foldl Pass.resolveSymbol ⟨r, .zero⟩

/-- A resolution visits the symbols in order. -/
theorem resolve_eq (r : Session) :
  r.resolve = (r.pass.stats, r.pass.session)
  := by
  rw [resolve, Pass.foldl_resolveScope]
  rfl

/-- A resolution settles cells that belong to the symbols visited. -/
theorem settles_pass (r : Session) :
  Pass.Settles (fun c => ∃ x ∈ r.context.tree.visits, r.context.tree.Belongs x c) ⟨r, .zero⟩
    r.pass
  := Pass.settles_foldl ⟨r, .zero⟩ _

/-! ## Coherence -/

/-- What holds of the first tree, what the operations on trees keep, and what depends only on
parents, children, tables and ranges holds of every tree that can be reached. -/
theorem Reachable.tree_induction {P : Tree → Prop} (hinitial : P .initial)
    (halike : ∀ {t t'}, P t → t.Alike t' → P t')
    (happly : ∀ {t} {o : Tree.Operation}, P t → o.Valid t → P (o.apply t)) {r : Session}
    (hr : r.Reachable) :
  P r.context.tree
  := by
  induction hr with
  | initial => apply hinitial
  | @step r o hr ho ih =>
    cases o with
    | onTree o => apply happly ih ho
    | say d => apply ih
    | analyze s phrase =>
      obtain ⟨gained, hgained⟩ := (r.extends_analyze s phrase).tree
      apply halike ih (Tree.alike_of_outline_eq hgained.outline_eq)
    | fold e => apply ih
    | resolve =>
      apply halike ih
      apply Tree.alike_of_outline_eq
      rw [Operation.apply, resolve_eq]
      apply r.settles_pass.outline

/-- Every session that can be reached has a coherent tree. -/
theorem Reachable.coherent {r : Session} (hr : r.Reachable) :
  r.context.tree.Coherent
  := hr.tree_induction Tree.coherent_initial Tree.Coherent.of_alike fun h ho => h.apply ho

end Session

/-- Every tree that can be reached is coherent. -/
theorem Tree.Reachable.coherent {t : Tree} (ht : t.Reachable) :
  t.Coherent
  := by
  obtain ⟨r, hr, rfl⟩ := ht
  apply hr.coherent

namespace Session

/-! ## What a resolution does -/

/-- `r'` is `r` after every expression that some symbol reaches was settled and counted, unless
it was settled before.  Apart from that only messages and occurrences were added: there is
nothing in a tree but its outline, its cells and its occurrences, by `Tree.eq_of_outline_eq`. -/
structure ResolvesTo (r r' : Session) (stats : Stats) : Prop where
  config : r'.context.config = r.context.config
  log : r.context.log <+: r'.context.log
  outline : r'.context.tree.outline = r.context.tree.outline
  occurrences : ∀ x,
    (r.context.tree.symbol x).occurrences <+: (r'.context.tree.symbol x).occurrences
  settled : ∀ c, r.context.tree.Reaches c → ¬ r'.context.tree.Unresolved c
  kept : ∀ c, ¬ (r.context.tree.Reaches c ∧ r.context.tree.Unresolved c) →
    r'.context.tree.cell? c = r.context.tree.cell? c
  total : {c | r.context.tree.Reaches c ∧ r.context.tree.Unresolved c}.encard
    = stats.resolved + stats.errors
  resolved : {c | r.context.tree.Reaches c ∧ r.context.tree.Unresolved c
    ∧ r'.context.tree.Resolved c}.encard = stats.resolved
  errors : {c | r.context.tree.Reaches c ∧ r.context.tree.Unresolved c
    ∧ r'.context.tree.Failed c}.encard = stats.errors

/-- In a coherent tree a resolution settles cells that some symbol reaches. -/
theorem settles_pass_of_coherent {r : Session} (h : r.context.tree.Coherent) :
  Pass.Settles r.context.tree.Reaches ⟨r, .zero⟩ r.pass
  := by
  apply r.settles_pass.mono
  rintro c ⟨x, hx, hc⟩
  exact Tree.reaches_iff.mpr ⟨x, h.mem_visits_iff.mp hx, hc⟩

/-- A resolution settles whatever it reaches, and another one finds nothing to do. -/
theorem resolvesTo_resolve {r : Session} (hr : r.Reachable) :
  r.ResolvesTo r.resolve.2 r.resolve.1 ∧ r.resolve.2.resolve = (.zero, r.resolve.2)
  := by
  have hcoherent := hr.coherent
  have hsettles : Pass.Settles r.context.tree.Reaches ⟨r, .zero⟩ r.pass :=
    settles_pass_of_coherent hcoherent
  have hvisited (x : SymbolId) (hx : x ∈ r.context.tree.visits) : r.pass.tree.SettledAt x := by
    apply Pass.settledAt_foldl _ hx
  have hsettled (c : Cell) (hc : r.context.tree.Reaches c) : ¬ r.pass.tree.Unresolved c := by
    obtain ⟨x, hx, hc⟩ := Tree.reaches_iff.mp hc
    apply Tree.settledAt_iff.mp (hvisited x (hcoherent.mem_visits_iff.mpr hx))
    apply (Tree.belongs_iff_of_outline_eq hsettles.outline x c).mpr hc
  rw [resolve_eq]
  constructor
  · constructor
    · apply hsettles.config
    · apply hsettles.log
    · apply hsettles.outline
    · apply hsettles.occurrences
    · apply hsettled
    · intro c hc
      by_cases hreaches : r.context.tree.Reaches c
      · apply hsettles.cell?_of_settled fun h => hc ⟨hreaches, h⟩
      · apply hsettles.cell?_of_not hreaches
    · have htotal := hsettles.encard_total hsettled
      rw [Stats.zero, Nat.add_zero, Nat.cast_zero, add_zero] at htotal
      rw [← Nat.cast_add]
      apply htotal
    · have hresolved := hsettles.encard_resolved
      rw [Stats.zero, Nat.cast_zero, add_zero] at hresolved
      apply hresolved
    · have hfailed := hsettles.encard_failed
      rw [Stats.zero, Nat.cast_zero, add_zero] at hfailed
      apply hfailed
  · -- the second pass makes the same visits, and finds everything settled
    have hpass : r.pass.session.pass = ⟨r.pass.session, .zero⟩ := by
      have hvisits : r.pass.session.context.tree.visits = r.context.tree.visits :=
        Tree.visits_eq_of_outline_eq hsettles.outline
      rw [pass, hvisits]
      apply Pass.foldl_of_settledAt (p := ⟨r.pass.session, .zero⟩) hvisited
    rw [resolve_eq, hpass]

/-- Two entities are declared with one derived type spec, whose parameter value is a name, and
one of them has an initial value with a name that is not declared. -/
def sharedSpecRun : List Operation :=
  let span : Span := ⟨"a.f90", 0, 1⟩
  [.onTree (.declare .global ⟨"n", span⟩
      (.object ⟨none, some (.pending (.integer 3 none span)), []⟩)),
    .onTree (.makeSpec .global "t"),
    .onTree (.addParam ⟨0⟩ none (.explicit (.pending (.designator ⟨"n", span⟩)))),
    .onTree (.declare .global ⟨"a", span⟩ (.object ⟨some (.typeDerived ⟨0⟩), none, []⟩)),
    .onTree (.declare .global ⟨"b", span⟩
      (.object ⟨some (.typeDerived ⟨0⟩), some (.pending (.designator ⟨"m", span⟩)), []⟩))]

/-- The parameter value of the shared spec counts once. -/
theorem resolvesTo_resolve_sharedSpecRun :
  let r := (initial .standard).run sharedSpecRun
  r.resolve.1 = ⟨2, 1⟩ ∧ r.ResolvesTo r.resolve.2 r.resolve.1
    ∧ r.resolve.2.resolve = (.zero, r.resolve.2)
  := by
  have hvalid : (initial .standard).ValidRun sharedSpecRun := by decide +kernel
  have hreachable := (Reachable.initial .standard).run hvalid
  refine ⟨?_, resolvesTo_resolve hreachable⟩
  decide +kernel

end Session

end FortranScope
