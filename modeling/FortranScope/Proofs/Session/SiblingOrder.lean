import FortranScope.Proofs.Resolution.Order
import FortranScope.Proofs.Session.Integrity

/-!
# The order of siblings

The children of scopes decide in which order a resolution visits the scopes, and matter for nothing
else.  As scopes apart are resolved independently, the order of siblings does not matter for what
is resolved, only for the order of messages and of occurrences.
-/

namespace FortranScope

/-! ## Resolutions do not look at children -/

namespace Session

/-- The session without the children of its scopes. -/
def childless (r : Session) : Session := r.modifyTree Tree.childless

/-- Names have the same meaning without the children of the scopes. -/
theorem agrees_childless (r : Session) (s : ScopeId) :
  Context.Agrees s r.context r.childless.context
  := by
  constructor
  · rfl
  · apply Tree.denoted?_childless
  · intro text x _
    rfl

/-- An analysis does not look at the children of a scope. -/
theorem analyze_childless (r : Session) (s : ScopeId) (phrase : Phrase) :
  r.childless.analyze s phrase = ((r.analyze s phrase).1, (r.analyze s phrase).2.childless)
  := by
  let a := r.context.analysis s phrase
  have htree : a.uses.foldl (fun t u => t.addOccurrence u.symbol .used u.span)
      r.context.tree.childless = (r.context.record a).tree.childless := by
    apply List.foldl_hom
    intro t u
    rfl
  rw [analyze, analyze, (r.agrees_childless s).analysis]
  exact congrArg (fun t => (a.result, (⟨⟨r.context.config, t, r.context.log ++ a.faults⟩,
    phrase.span.first⟩ : Session))) htree

/-- Settling an expression does not look at the children of a scope. -/
theorem settle_childless (r : Session) (s : ScopeId) (d : Deferred) :
  r.childless.settle s d = ((r.settle s d).1, (r.settle s d).2.childless)
  := by
  cases d with
  | empty | failed | resolved => rfl
  | pending phrase =>
    rw [settle, settle, analyze_childless]
    cases r.analyze s phrase with
    | mk result next =>
      cases result with
      | none => rfl
      | some e => rfl

end Session

namespace Pass

/-- The pass without the children of scopes. -/
def childless (p : Pass) : Pass := { p with session := p.session.childless }

/-- A pass and the same pass without children settle alike. -/
theorem parallel_childless (s : ScopeId) :
  Parallel (fun p q => q = p.childless) s
  := by
  apply parallel_of_unresolved
  rintro p _ d rfl
  simp only [childless, Session.settle_childless]
  exact ⟨trivial, trivial⟩

/-- Resolving a symbol does not look at the children of a scope. -/
theorem resolveSymbol_childless (p : Pass) (x : SymbolId) :
  p.childless.resolveSymbol x = (p.resolveSymbol x).childless
  := by
  have hparallel : Parallel (fun p q => q = p.childless) (p.tree.symbol x).owner :=
    parallel_childless _
  have htype : p.childless.resolveType x = (p.resolveType x).childless := by
    apply Parallel.resolveType hparallel rfl rfl rfl rfl
    · intro d hd
      rfl
    · rintro p _ d params rfl
      rfl
  have howner : ((p.resolveType x).tree.symbol x).owner = (p.tree.symbol x).owner :=
    Tree.owner_eq_of_outline_eq (p.outline_resolveType x) x
  apply Parallel.resolveDetails hparallel htype howner
  · rw [htype]
    exact howner
  · rw [htype]
    rfl
  · rintro p _ D rfl
    rfl

/-- Resolving a scope does not look at its children. -/
theorem resolveScope_childless (p : Pass) (s : ScopeId) :
  p.childless.resolveScope s = (p.resolveScope s).childless
  := by
  have htable : (p.childless.tree.scope s).table = (p.tree.scope s).table := by
    change (p.tree.childless.scope s).table = _
    rw [Tree.scope_childless]
    rfl
  rw [resolveScope, htable]
  apply List.foldl_hom
  apply resolveSymbol_childless

/-- Resolving scopes does not look at their children. -/
theorem foldl_childless (p : Pass) (scopes : List ScopeId) :
  scopes.foldl resolveScope p.childless = (scopes.foldl resolveScope p).childless
  := by
  apply List.foldl_hom
  apply resolveScope_childless

end Pass

/-! ## The order of children does not matter -/

namespace Tree

variable {t t' : Tree}

/-- The children of a scope are listed in the order of their creation. -/
theorem Sound.nodup_children (h : t.Sound) (s : ScopeId) :
  (t.scope s).children.Nodup
  := by
  by_cases hs : t.HasScope s
  · apply (h.scope s hs).ordered.imp
    rintro q q' hlt rfl
    exact Nat.lt_irrefl _ hlt
  · rw [scope_eq_default hs]
    apply List.nodup_nil

/-- Whether specs are nested does not depend on the order of children. -/
theorem Reorders.specsNested (h : t.Reorders t') (ht : t.SpecsNested) :
  t'.SpecsNested
  := by
  intro x y d hx hy hdx hdy
  rw [h.tabled_iff] at hx hy
  rw [h.symbol] at hdx hdy
  simp only [Apart, h.encloses_iff, h.symbol]
  exact ht x y d hx hy hdx hdy

end Tree

namespace Session

/-- Whatever the order of the children of scopes is, a resolution gives all cells the same value,
counts the same, and reports the same and notes the same occurrences of each symbol, in another
order, if no derived type spec is the declared type of symbols in the tables of scopes apart. -/
theorem resolve_of_reorders {r : Session} (hr : r.Reachable) {t t' : Tree}
    (ht : r.context.tree.Reorders t) (ht' : r.context.tree.Reorders t')
    (hspecs : r.context.tree.SpecsNested) :
  let outcome := (⟨{ r.context with tree := t }, .null⟩ : Session).resolve
  let outcome' := (⟨{ r.context with tree := t' }, .null⟩ : Session).resolve
  outcome'.1 = outcome.1
    ∧ (∀ c, outcome'.2.context.tree.cell? c = outcome.2.context.tree.cell? c)
    ∧ outcome'.2.context.log.Perm outcome.2.context.log
    ∧ ∀ x, (outcome'.2.context.tree.symbol x).occurrences.Perm
      (outcome.2.context.tree.symbol x).occurrences
  := by
  intro outcome outcome'
  have hreorders : t.Reorders t' := ht.symm.trans ht'
  have hcoherent : t.Coherent := ht.coherent hr.coherent
  have hchildren : ∀ q, (t.scope q).children.Nodup := by
    apply ht.nodup_children
    apply hr.sound.nodup_children
  let p : Pass := ⟨⟨{ r.context with tree := t }, .null⟩, .zero⟩
  let p' : Pass := ⟨⟨{ r.context with tree := t' }, .null⟩, .zero⟩
  have hseparable : p.tree.Separable := ⟨hcoherent, ht.specsNested hspecs⟩
  -- the two walks list the same scopes, and in neither is one listed before those around it
  have hshuffles : (t.walk.foldl Pass.resolveScope p).Shuffles
      (t'.walk.foldl Pass.resolveScope p) := by
    apply Pass.shuffles_foldl hseparable
    · apply hcoherent.perm_walk hchildren hreorders
    · apply hcoherent.pairwise_walk hchildren
    · have hpairwise := (hreorders.coherent hcoherent).pairwise_walk
        (hreorders.nodup_children hchildren)
      simp only [hreorders.encloses_iff] at hpairwise
      exact hpairwise
  have hchildless : (t'.walk.foldl Pass.resolveScope p').childless
      = (t'.walk.foldl Pass.resolveScope p).childless := by
    have hp : p'.childless = p.childless :=
      congrArg (fun u => (⟨⟨{ r.context with tree := u }, .null⟩, .zero⟩ : Pass))
        hreorders.childless
    rw [← Pass.foldl_childless, hp, Pass.foldl_childless]
  refine ⟨?_, ?_, ?_, ?_⟩
  · exact (congrArg Pass.stats hchildless).trans hshuffles.stats
  · intro c
    exact (congrArg (fun p => p.tree.cell? c) hchildless).trans (hshuffles.tree.cell c trivial)
  · have hlog : outcome'.2.context.log
        = (t'.walk.foldl Pass.resolveScope p).session.context.log :=
      congrArg (fun p => p.session.context.log) hchildless
    rw [hlog]
    exact hshuffles.log
  · intro x
    have hoccurrences : (outcome'.2.context.tree.symbol x).occurrences
        = ((t'.walk.foldl Pass.resolveScope p).tree.symbol x).occurrences :=
      congrArg (fun p => (p.tree.symbol x).occurrences) hchildless
    rw [hoccurrences]
    exact hshuffles.occurrences x

/-- Two program units in which a name is used, and one that is not declared.  The first unit and the
global scope have a variable of a type whose parameter value is a name. -/
def siblingsRun : List Operation :=
  let word (start : Nat) : Span := ⟨"a.f90", start, start + 1⟩
  let name (text : String) (start : Nat) : Phrase := .designator ⟨text, word start⟩
  let declaration (s : ScopeId) (text : String) (type : Option DeclType) (init : Phrase) :
      Operation :=
    .onTree (.declare s ⟨text, word 0⟩ (.object ⟨type, some (.pending init), []⟩))
  [declaration .global "n" none (.integer 3 none (word 1)),
    .onTree (.makeSpec .global "t"),
    .onTree (.addParam ⟨0⟩ none (.explicit (.pending (name "n" 2)))),
    declaration .global "a" (some (.typeDerived ⟨0⟩)) (name "n" 3),
    .onTree (.makeScope .global .mainProgram none),
    declaration ⟨1⟩ "b" (some (.typeDerived ⟨0⟩)) (name "n" 4),
    declaration ⟨1⟩ "c" none (name "u" 5),
    .onTree (.makeScope .global .subprogram none),
    declaration ⟨2⟩ "d" none (name "n" 6),
    declaration ⟨2⟩ "e" none (name "v" 7)]

/-- The spec in `siblingsRun` belongs to the global scope and to one unit in it, which are not
apart. -/
theorem specsNested_siblingsRun :
  ((initial .standard).run siblingsRun).context.tree.SpecsNested
  := by
  let t := ((initial .standard).run siblingsRun).context.tree
  have hvalid : (initial .standard).ValidRun siblingsRun := by decide +kernel
  have hcoherent : t.Coherent := ((Reachable.initial .standard).run hvalid).coherent
  have howner : ∀ i < t.symbols.size, (t.symbol ⟨i⟩).details.spec?.isSome →
      (t.symbol ⟨i⟩).owner = .global ∨ (t.symbol ⟨i⟩).owner = ⟨1⟩ := by
    decide +kernel
  have hspec {x : SymbolId} {d : SpecId} (hx : t.Tabled x)
      (hd : (t.symbol x).details.spec? = some d) :
      (t.symbol x).owner = .global ∨ (t.symbol x).owner = ⟨1⟩ := by
    obtain ⟨s, -, hs⟩ := hx
    apply howner x.index (hcoherent.hasSymbol hs)
    rw [show (t.symbol ⟨x.index⟩).details.spec? = some d from hd]
    rfl
  have hencloses : t.Encloses .global ⟨1⟩ := by
    apply Relation.TransGen.single
    decide +kernel
  rintro x y d hx hy hdx hdy ⟨hne, hxy, hyx⟩
  rcases hspec hx hdx with howner | howner <;> rcases hspec hy hdy with howner' | howner'
  · exact hne (howner.trans howner'.symm)
  · exact hxy (howner ▸ howner' ▸ hencloses)
  · exact hyx (howner ▸ howner' ▸ hencloses)
  · exact hne (howner.trans howner'.symm)

/-- If the second program unit is visited first, the messages and the occurrences change
places. -/
theorem resolve_of_reorders_siblingsRun :
  let r := (initial .standard).run siblingsRun
  let t := r.context.tree
  let t' := t.modifyScope .global fun q => { q with children := q.children.reverse }
  let outcome := (⟨{ r.context with tree := t }, .null⟩ : Session).resolve
  let outcome' := (⟨{ r.context with tree := t' }, .null⟩ : Session).resolve
  r.Reachable ∧ t.Reorders t' ∧ t.SpecsNested
    ∧ outcome.1 = ⟨5, 2⟩ ∧ outcome'.2.context.log = outcome.2.context.log.reverse
    ∧ outcome'.2.context.log ≠ outcome.2.context.log
    ∧ outcome'.1 = outcome.1
    ∧ (∀ c, outcome'.2.context.tree.cell? c = outcome.2.context.tree.cell? c)
    ∧ outcome'.2.context.log.Perm outcome.2.context.log
    ∧ ∀ x, (outcome'.2.context.tree.symbol x).occurrences.Perm
      (outcome.2.context.tree.symbol x).occurrences
  := by
  intro r t t' outcome outcome'
  have hvalid : (initial .standard).ValidRun siblingsRun := by decide +kernel
  have hr : r.Reachable := (Reachable.initial .standard).run hvalid
  have hreorders : t.Reorders t' := t.reorders_modifyScope .global List.reverse_perm
  have hspecs : t.SpecsNested := specsNested_siblingsRun
  have hresolve := resolve_of_reorders hr (.refl t) hreorders hspecs
  have hstats : outcome.1 = ⟨5, 2⟩ := by decide +kernel
  have hlog : outcome'.2.context.log = outcome.2.context.log.reverse := by decide +kernel
  have hne : outcome'.2.context.log ≠ outcome.2.context.log := by decide +kernel
  refine ⟨hr, hreorders, hspecs, hstats, hlog, hne, ?_⟩
  -- the sessions are not computed again
  clear_value r t t'
  exact hresolve

end Session

end FortranScope
