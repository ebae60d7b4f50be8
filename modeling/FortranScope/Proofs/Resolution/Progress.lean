import FortranScope.Proofs.Resolution.Settling
import Mathlib.Data.Set.Card

/-!
# What a pass keeps and what it counts

A single step of a pass changes one cell, which was not settled before.  So over any number of
steps the outline of the tree stays, occurrences and messages are only added, a cell changes at
most once, and the statistics count the cells that did.
-/

namespace FortranScope.Pass

/-! ## One step -/

namespace SettlesAt

variable {p q : Pass} {c : Cell}

/-- Settling one cell keeps the outline. -/
theorem outline (h : p.SettlesAt q c) :
  q.tree.outline = p.tree.outline
  := by
  obtain ⟨u, gained, d, d', hgained, hreplaces, -⟩ := h.settled
  rw [hreplaces.outline, hgained.outline_eq]

/-- Settling one cell only appends to the occurrences of a symbol. -/
theorem occurrences (h : p.SettlesAt q c) (x : SymbolId) :
  (p.tree.symbol x).occurrences <+: (q.tree.symbol x).occurrences
  := by
  obtain ⟨u, gained, d, d', hgained, hreplaces, -⟩ := h.settled
  rw [hreplaces.occurrences, hgained.symbol]
  apply List.prefix_append

/-- Settling one cell leaves the others as they are. -/
theorem cell?_of_ne (h : p.SettlesAt q c) {other : Cell} (hother : other ≠ c) :
  q.tree.cell? other = p.tree.cell? other
  := by
  obtain ⟨u, gained, d, d', hgained, hreplaces, -⟩ := h.settled
  rw [hreplaces.others other hother, hgained.cell?]

/-- A cell is settled only if it was not before. -/
theorem unresolved (h : p.SettlesAt q c) :
  p.tree.Unresolved c
  := by
  obtain ⟨u, gained, d, d', hgained, hreplaces, hd, -⟩ := h.settled
  use d
  exact ⟨(hgained.cell? c).symm.trans hreplaces.before, hd⟩

/-- The expression that is left in the cell is settled and counted. -/
theorem exists_outcome (h : p.SettlesAt q c) :
  ∃ d, q.tree.cell? c = some d ∧ d.isUnresolved = false ∧ q.stats = p.stats.add d
  := by
  obtain ⟨u, gained, d, d', hgained, hreplaces, -, hd', hstats⟩ := h.settled
  exact ⟨d', hreplaces.after, hd', hstats⟩

end SettlesAt

/-! ## Any number of steps -/

namespace Settles

variable {A : Cell → Prop} {p q : Pass}

/-- Settling cells keeps the configuration. -/
theorem config (h : p.Settles A q) :
  q.session.context.config = p.session.context.config
  := by
  induction h with
  | refl => rfl
  | tail _ hstep ih =>
    obtain ⟨c, -, hsettles⟩ := hstep
    rw [hsettles.config, ih]

/-- Settling cells only appends to the messages. -/
theorem log (h : p.Settles A q) :
  p.session.context.log <+: q.session.context.log
  := by
  induction h with
  | refl => apply List.prefix_refl
  | tail _ hstep ih =>
    obtain ⟨c, -, hsettles⟩ := hstep
    apply ih.trans hsettles.log

/-- Settling cells keeps the outline. -/
theorem outline (h : p.Settles A q) :
  q.tree.outline = p.tree.outline
  := by
  induction h with
  | refl => rfl
  | tail _ hstep ih =>
    obtain ⟨c, -, hsettles⟩ := hstep
    rw [hsettles.outline, ih]

/-- Settling cells only appends to the occurrences of a symbol. -/
theorem occurrences (h : p.Settles A q) (x : SymbolId) :
  (p.tree.symbol x).occurrences <+: (q.tree.symbol x).occurrences
  := by
  induction h with
  | refl => apply List.prefix_refl
  | tail _ hstep ih =>
    obtain ⟨c, -, hsettles⟩ := hstep
    apply ih.trans (hsettles.occurrences x)

/-- A cell that the pass does not go to stays as it is. -/
theorem cell?_of_not (h : p.Settles A q) {c : Cell} (hc : ¬ A c) :
  q.tree.cell? c = p.tree.cell? c
  := by
  induction h with
  | refl => rfl
  | tail _ hstep ih =>
    obtain ⟨other, hother, hsettles⟩ := hstep
    have hne : c ≠ other := by
      rintro rfl
      exact hc hother
    rw [hsettles.cell?_of_ne hne, ih]

/-- A cell whose expression is settled stays as it is. -/
theorem cell?_of_settled (h : p.Settles A q) {c : Cell} (hc : ¬ p.tree.Unresolved c) :
  q.tree.cell? c = p.tree.cell? c
  := by
  induction h with
  | refl => rfl
  | @tail q q' _ hstep ih =>
    obtain ⟨other, -, hsettles⟩ := hstep
    have hne : c ≠ other := by
      rintro rfl
      apply hc
      obtain ⟨d, hd, hunresolved⟩ := hsettles.unresolved
      exact ⟨d, ih.symm.trans hd, hunresolved⟩
    rw [hsettles.cell?_of_ne hne, ih]

/-- A cell whose expression is not settled in the end never changed. -/
theorem cell?_of_unresolved (h : p.Settles A q) {c : Cell} (hc : q.tree.Unresolved c) :
  q.tree.cell? c = p.tree.cell? c
  := by
  induction h with
  | refl => rfl
  | @tail q q' _ hstep ih =>
    obtain ⟨other, -, hsettles⟩ := hstep
    obtain ⟨d, hd, hunresolved⟩ := hc
    have hne : c ≠ other := by
      rintro rfl
      obtain ⟨d', hd', hsettled, -⟩ := hsettles.exists_outcome
      cases hd.symm.trans hd'
      rw [hsettled] at hunresolved
      contradiction
    rw [hsettles.cell?_of_ne hne] at hd ⊢
    apply ih ⟨d, hd, hunresolved⟩

/-- A cell without an unresolved expression never gets one. -/
theorem not_unresolved (h : p.Settles A q) {c : Cell} (hc : ¬ p.tree.Unresolved c) :
  ¬ q.tree.Unresolved c
  := by
  rw [Tree.Unresolved, h.cell?_of_settled hc]
  apply hc

/-- No cell loses its expression or gets a first one. -/
theorem isSome_cell? (h : p.Settles A q) (c : Cell) :
  (q.tree.cell? c).isSome = (p.tree.cell? c).isSome
  := by
  induction h with
  | refl => rfl
  | @tail q q' _ hstep ih =>
    obtain ⟨other, -, hsettles⟩ := hstep
    by_cases hc : c = other
    · obtain ⟨d, hd, -⟩ := hsettles.unresolved
      obtain ⟨d', hd', -⟩ := hsettles.exists_outcome
      rw [← ih, hc, hd, hd']
      rfl
    · rw [hsettles.cell?_of_ne hc, ih]

/-- A part of the statistics that counts the outcomes `P` has counted the cells that came out
so. -/
theorem encard_add_count (h : p.Settles A q) (P : Deferred → Prop) (count : Stats → Nat)
    (hP : ∀ d, P d → d.isUnresolved = false)
    (hcount : ∀ stats d, P d → count (stats.add d) = count stats + 1)
    (hskip : ∀ stats d, d.isUnresolved = false → ¬ P d → count (stats.add d) = count stats) :
  {c | A c ∧ p.tree.Unresolved c ∧ ∃ d, q.tree.cell? c = some d ∧ P d}.encard + count p.stats
    = count q.stats
  := by
  induction h with
  | refl =>
    -- no cell has been settled yet
    have hempty : {c | A c ∧ p.tree.Unresolved c ∧ ∃ d, p.tree.cell? c = some d ∧ P d} = ∅ := by
      rw [Set.eq_empty_iff_forall_notMem]
      rintro c ⟨-, hunresolved, hexists⟩
      exact hunresolved.not_exists hP hexists
    rw [hempty, Set.encard_empty, zero_add]
  | @tail q q' hrun hstep ih =>
    have hrun : p.Settles A q := hrun
    obtain ⟨c, hc, hsettles⟩ := hstep
    obtain ⟨d, hd, hdsettled, hstats⟩ := hsettles.exists_outcome
    -- a cell is settled once, so this one waited from the start and is not yet in the set
    have hunresolved : p.tree.Unresolved c := by
      by_contra hsettled
      exact hrun.not_unresolved hsettled hsettles.unresolved
    have hbefore : ¬ ∃ d, q.tree.cell? c = some d ∧ P d := hsettles.unresolved.not_exists hP
    by_cases hPd : P d
    · -- one more cell
      have hinsert : {c | A c ∧ p.tree.Unresolved c ∧ ∃ d, q'.tree.cell? c = some d ∧ P d}
          = insert c {c | A c ∧ p.tree.Unresolved c ∧ ∃ d, q.tree.cell? c = some d ∧ P d} := by
        ext other
        by_cases hother : other = c
        · subst hother
          simp only [Set.mem_insert_iff, true_or, iff_true]
          exact ⟨hc, hunresolved, d, hd, hPd⟩
        · simp [hother, hsettles.cell?_of_ne hother]
      rw [hinsert, Set.encard_insert_of_notMem fun h => hbefore h.2.2, hstats, hcount _ _ hPd,
        add_right_comm, ih]
      rfl
    · -- the cell is not among those that `P` holds of, neither before nor after
      have hafter : ¬ ∃ d, q'.tree.cell? c = some d ∧ P d := by
        rintro ⟨d', hd', hPd'⟩
        obtain rfl := Option.some.inj (hd.symm.trans hd')
        exact hPd hPd'
      have hsame : {c | A c ∧ p.tree.Unresolved c ∧ ∃ d, q'.tree.cell? c = some d ∧ P d}
          = {c | A c ∧ p.tree.Unresolved c ∧ ∃ d, q.tree.cell? c = some d ∧ P d} := by
        ext other
        by_cases hother : other = c
        · subst hother
          exact ⟨fun h => absurd h.2.2 hafter, fun h => absurd h.2.2 hbefore⟩
        · simp [hsettles.cell?_of_ne hother]
      rw [hsame, hstats, hskip _ _ hdsettled hPd, ih]

/-- The cells that became resolved are as many as were counted as resolved. -/
theorem encard_resolved (h : p.Settles A q) :
  {c | A c ∧ p.tree.Unresolved c ∧ q.tree.Resolved c}.encard + p.stats.resolved
    = q.stats.resolved
  := by
  have hcount := h.encard_add_count (fun d => ∃ e, d = .resolved e) Stats.resolved
    (by rintro _ ⟨e, rfl⟩; rfl) (by rintro stats _ ⟨e, rfl⟩; rfl) (by
      intro stats d _ hd
      cases d with
      | resolved e => exact absurd ⟨e, rfl⟩ hd
      | _ => rfl)
  rw [← hcount]
  congr 2
  ext c
  simp [Tree.Resolved]

/-- The cells that failed are as many as were counted as errors. -/
theorem encard_failed (h : p.Settles A q) :
  {c | A c ∧ p.tree.Unresolved c ∧ q.tree.Failed c}.encard + p.stats.errors = q.stats.errors
  := by
  have hcount := h.encard_add_count (fun d => d = .failed) Stats.errors
    (by rintro _ rfl; rfl) (by rintro stats _ rfl; rfl) (by
      intro stats d hsettled hd
      cases d with
      | resolved e => rfl
      | failed => exact absurd rfl hd
      | empty | pending => contradiction)
  rw [← hcount]
  congr 2
  ext c
  simp [Tree.Failed]

/-- If every cell was settled, both parts of the statistics together count all cells that were
not. -/
theorem encard_total (h : p.Settles A q) (hsettled : ∀ c, A c → ¬ q.tree.Unresolved c) :
  {c | A c ∧ p.tree.Unresolved c}.encard + (p.stats.resolved + p.stats.errors : Nat)
    = (q.stats.resolved + q.stats.errors : Nat)
  := by
  have hcount := h.encard_add_count (fun d => d.isUnresolved = false)
    (fun stats => stats.resolved + stats.errors) (fun _ hd => hd) (by
      intro stats d hd
      cases d with
      | resolved e => exact Nat.add_right_comm _ _ _
      | failed => rfl
      | empty | pending => contradiction) (by
      intro stats d hd hd'
      contradiction)
  rw [← hcount]
  congr 2
  ext c
  constructor
  · rintro ⟨hc, hunresolved⟩
    refine ⟨hc, hunresolved, ?_⟩
    obtain ⟨d, hd, -⟩ := hunresolved
    have hsome : (q.tree.cell? c).isSome := by
      rw [h.isSome_cell?, hd]
      rfl
    obtain ⟨d', hd'⟩ := Option.isSome_iff_exists.mp hsome
    use d', hd'
    by_contra hd'unresolved
    exact hsettled c hc ⟨d', hd', by simpa using hd'unresolved⟩
  · rintro ⟨hc, hunresolved, -⟩
    exact ⟨hc, hunresolved⟩

end Settles

end FortranScope.Pass
