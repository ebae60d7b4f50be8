import FortranScope.Proofs.Resolution.Independence

/-!
# Scopes in another order

Resolving two scopes apart in either order gives passes that differ only in the order of messages
and of occurrences.  `Pass.Shuffles` relates such passes and is kept by resolving further scopes, so
scopes can be resolved in any order in which none comes before those that enclose it.
-/

namespace FortranScope.Pass

/-! ## Passes that differ in order -/

/-- `q` is `p` with its messages, and the occurrences of each symbol, in another order. -/
structure Shuffles (p q : Pass) : Prop where
  config : q.session.context.config = p.session.context.config
  tree : p.tree.AgreesOn (fun _ => True) q.tree
  stats : q.stats = p.stats
  log : q.session.context.log.Perm p.session.context.log
  occurrences : ∀ x, (q.tree.symbol x).occurrences.Perm (p.tree.symbol x).occurrences

namespace Shuffles

variable {p q r : Pass}

theorem refl (p : Pass) :
  p.Shuffles p
  := by
  constructor
  · rfl
  · exact ⟨rfl, fun c _ => rfl⟩
  · rfl
  · apply List.Perm.refl
  · intro x
    apply List.Perm.refl

theorem trans (h : p.Shuffles q) (h' : q.Shuffles r) :
  p.Shuffles r
  := by
  constructor
  · rw [h'.config, h.config]
  · apply h.tree.trans h'.tree
  · rw [h'.stats, h.stats]
  · apply h'.log.trans h.log
  · intro x
    apply (h'.occurrences x).trans (h.occurrences x)

/-- Messages and occurrences have no effect on resolving a scope, whatever their order. -/
theorem resolveScope (h : p.Shuffles q) (hp : p.tree.Coherent) (s : ScopeId) :
  (p.resolveScope s).Shuffles (q.resolveScope s)
  := by
  obtain ⟨htree, δ, hδ, hδ'⟩ := exists_adds_resolveScope hp h.config h.tree fun c _ => trivial
  constructor
  · rw [(q.settles_resolveScope s).config, (p.settles_resolveScope s).config, h.config]
  · exact htree
  · rw [hδ'.stats, hδ.stats, h.stats]
  · rw [hδ'.log, hδ.log]
    apply h.log.append_right
  · intro x
    rw [hδ'.occurrences, hδ.occurrences]
    apply (h.occurrences x).append_right

end Shuffles

/-- Scopes apart can be resolved in either order. -/
theorem shuffles_swap {p : Pass} (hp : p.tree.Separable) {s s' : ScopeId}
    (hapart : p.tree.Apart s s') :
  ((p.resolveScope s).resolveScope s').Shuffles ((p.resolveScope s').resolveScope s)
  := by
  -- each of the scopes consults what the resolution of the other one leaves as it is
  have hother {s s' : ScopeId} (hapart : p.tree.Apart s s') :
      p.tree.AgreesOn (p.tree.Consults s) (p.resolveScope s').tree := by
    apply (p.agreesOn_resolveScope s').mono
    intro c hc
    exact hp.not_owns hapart hc
  have hconfig (p : Pass) (s : ScopeId) :
      (p.resolveScope s).session.context.config = p.session.context.config :=
    (p.settles_resolveScope s).config
  obtain ⟨hs, δ, hδ, hδ'⟩ := exists_adds_resolveScope hp.coherent (hconfig p s') (hother hapart)
    fun c hc => hc
  obtain ⟨hs', ε, hε, hε'⟩ := exists_adds_resolveScope hp.coherent (hconfig p s)
    (hother hapart.symm) fun c hc => hc
  have hkept (q : Pass) (houtline : q.tree.outline = p.tree.outline) (s : ScopeId) {c : Cell}
      (hc : ¬ p.tree.Owns s c) : (q.resolveScope s).tree.cell? c = q.tree.cell? c := by
    apply (q.agreesOn_resolveScope s).cell
    rwa [Tree.owns_iff_of_outline_eq houtline]
  have hfirst := hδ.trans hε'
  have hsecond := hε.trans hδ'
  constructor
  · simp only [hconfig]
  · constructor
    · simp only [outline_resolveScope]
    · intro c _
      by_cases hc : p.tree.Owns s c
      · rw [hs.cell c hc.consults]
        exact (hkept _ (p.outline_resolveScope s) s' (hp.not_owns hapart hc.consults)).symm
      · rw [hkept _ (p.outline_resolveScope s') s hc]
        by_cases hc' : p.tree.Owns s' c
        · exact (hs'.cell c hc'.consults).symm
        · rw [hkept p rfl s' hc', hkept _ (p.outline_resolveScope s) s' hc', hkept p rfl s hc]
  · rw [hfirst.stats, hsecond.stats]
    exact congrArg _ (Stats.plus_comm _ _)
  · rw [hfirst.log, hsecond.log]
    exact List.perm_append_comm.append_left _
  · intro x
    rw [hfirst.occurrences, hsecond.occurrences]
    exact List.perm_append_comm.append_left _

/-! ## Scopes in another order -/

theorem separable_resolveScope {p : Pass} (hp : p.tree.Separable) (s : ScopeId) :
  (p.resolveScope s).tree.Separable
  := hp.of_outline_eq (p.outline_resolveScope s)

/-- Resolving scopes keeps the scopes separable. -/
theorem separable_foldl {p : Pass} (hp : p.tree.Separable) (scopes : List ScopeId) :
  (scopes.foldl resolveScope p).tree.Separable
  := by
  induction scopes generalizing p with
  | nil => exact hp
  | cons s scopes ih => apply ih (separable_resolveScope hp s)

/-- Passes that differ in order still do so after the same scopes were resolved. -/
theorem Shuffles.foldl {p q : Pass} (h : p.Shuffles q) (hp : p.tree.Separable)
    (scopes : List ScopeId) :
  (scopes.foldl Pass.resolveScope p).Shuffles (scopes.foldl Pass.resolveScope q)
  := by
  induction scopes generalizing p q with
  | nil => exact h
  | cons s scopes ih => apply ih (h.resolveScope hp.coherent s) (separable_resolveScope hp s)

/-- A scope can be resolved after scopes apart from it. -/
theorem shuffles_move {p : Pass} (hp : p.tree.Separable) {s : ScopeId} {before : List ScopeId}
    (h : ∀ q ∈ before, q = s ∨ p.tree.Apart s q) :
  ((s :: before).foldl resolveScope p).Shuffles ((before ++ [s]).foldl resolveScope p)
  := by
  induction before generalizing p with
  | nil => apply Shuffles.refl
  | cons q before ih =>
    obtain ⟨hq, hbefore⟩ := List.forall_mem_cons.mp h
    have hswap : ((p.resolveScope s).resolveScope q).Shuffles
        ((p.resolveScope q).resolveScope s) := by
      rcases hq with rfl | hapart
      · apply Shuffles.refl
      · apply shuffles_swap hp hapart
    have hseparable := separable_resolveScope (separable_resolveScope hp s) q
    apply (hswap.foldl hseparable before).trans
    apply ih (separable_resolveScope hp q)
    simp only [Tree.apart_iff_of_outline_eq (p.outline_resolveScope q)]
    exact hbefore

/-- Scopes can be resolved in any order in which none comes before those that enclose it. -/
theorem shuffles_foldl {p : Pass} (hp : p.tree.Separable) {scopes scopes' : List ScopeId}
    (hperm : scopes.Perm scopes')
    (h : scopes.Pairwise fun s s' => ¬ p.tree.Encloses s' s)
    (h' : scopes'.Pairwise fun s s' => ¬ p.tree.Encloses s' s) :
  (scopes.foldl resolveScope p).Shuffles (scopes'.foldl resolveScope p)
  := by
  induction scopes generalizing p scopes' with
  | nil =>
    obtain rfl := hperm.nil_eq
    apply Shuffles.refl
  | cons s scopes ih =>
    obtain ⟨before, after, rfl⟩ := List.append_of_mem (hperm.subset List.mem_cons_self)
    have hrest : scopes.Perm (before ++ after) := (hperm.trans List.perm_middle).cons_inv
    obtain ⟨hfirst, hscopes⟩ := List.pairwise_cons.mp h
    obtain ⟨hbefore, hafter, hacross⟩ := List.pairwise_append.mp h'
    -- the scopes before `s` are apart from it, as `s` comes first on the other side
    have hapart : ∀ q ∈ before, q = s ∨ p.tree.Apart s q := by
      intro q hq
      by_cases heq : q = s
      · exact .inl heq
      · right
        refine ⟨fun heq' => heq heq'.symm, ?_, ?_⟩
        · apply hacross q hq s List.mem_cons_self
        · apply hfirst
          apply hrest.mem_iff.mpr (List.mem_append_left _ hq)
    have hih : (scopes.foldl resolveScope (p.resolveScope s)).Shuffles
        ((before ++ after).foldl resolveScope (p.resolveScope s)) := by
      apply ih (separable_resolveScope hp s) hrest
      · simp only [Tree.encloses_iff_of_outline_eq (p.outline_resolveScope s)]
        exact hscopes
      · simp only [Tree.encloses_iff_of_outline_eq (p.outline_resolveScope s)]
        exact h'.sublist ((List.sublist_cons_self s after).append_left before)
    have hmove := (shuffles_move hp hapart).foldl (separable_foldl hp (s :: before)) after
    rw [List.foldl_append] at hih hmove
    rw [List.foldl_cons, List.foldl_append, List.foldl_cons]
    exact hih.trans hmove

end FortranScope.Pass
