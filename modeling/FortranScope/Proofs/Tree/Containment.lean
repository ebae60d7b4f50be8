import FortranScope.Proofs.Tree.Association

/-!
# Source ranges

A span that belongs to a scope belongs to every scope around it, so the offsets of the range of
a scope lie between those of the range of its parent.  A range stays in the file of the first
span that it was grown by, though.  It contains a range inside it exactly if that one is in the
same file, and the global scope leads only to the scopes of a single file.
-/

namespace FortranScope

/-! ## Offsets -/

/-- The offsets of `t` lie between those of `s`, whatever their files are. -/
def Span.Encompasses (s t : Span) : Prop := s.start ≤ t.start ∧ t.stop ≤ s.stop

namespace Span

variable {s t u : Span}

theorem contains_iff :
  s.Contains t ↔ s.file = t.file ∧ s.Encompasses t
  := Iff.rfl

theorem Encompasses.trans (h : s.Encompasses t) (h' : t.Encompasses u) :
  s.Encompasses u
  := ⟨Nat.le_trans h.1 h'.1, Nat.le_trans h'.2 h.2⟩

theorem cover_encompasses_left (s t : Span) :
  (s.cover t).Encompasses s
  := (s.cover_contains_left t).2

theorem cover_encompasses_right (s t : Span) :
  (s.cover t).Encompasses t
  := ⟨Nat.min_le_right _ _, Nat.le_max_right _ _⟩

/-- Spans grown by the same span encompass each other as they did before. -/
theorem Encompasses.cover (h : s.Encompasses t) (u : Span) :
  (s.cover u).Encompasses (t.cover u)
  := by
  obtain ⟨hstart, hstop⟩ := h
  constructor
  · exact Nat.le_min.mpr
      ⟨Nat.le_trans (Nat.min_le_left _ _) hstart, Nat.min_le_right _ _⟩
  · exact Nat.max_le.mpr
      ⟨Nat.le_trans hstop (Nat.le_max_left _ _), Nat.le_max_right _ _⟩

end Span

namespace Tree

variable {t t' : Tree}

/-! ## The scopes around a scope -/

/-- A chain outward from a scope begins with it. -/
theorem Outward.head_mem {s : ScopeId} {chain : List ScopeId} (h : t.Outward s chain) :
  s ∈ chain
  := by
  cases h <;> apply List.mem_cons_self

/-- With a scope its parent is in the chain. -/
theorem Outward.parent_mem {s p q : ScopeId} {chain : List ScopeId} (h : t.Outward s chain)
    (hq : q ∈ chain) (hp : (t.scope q).parent = some p) :
  p ∈ chain
  := by
  induction h with
  | outermost h =>
    obtain rfl := List.mem_singleton.mp hq
    rw [h] at hp
    contradiction
  | inner h hchain ih =>
    apply List.mem_cons_of_mem
    rcases List.mem_cons.mp hq with rfl | hq
    · obtain rfl := Option.some.inj (h.symm.trans hp)
      apply hchain.head_mem
    · apply ih hq

/-- In a coherent tree scopes get older along a chain. -/
theorem Coherent.sorted_outward (h : t.Coherent) {s : ScopeId} {chain : List ScopeId}
    (hs : t.HasScope s) (hchain : t.Outward s chain) :
  chain.Pairwise (fun p q => q.index < p.index) ∧ ∀ q ∈ chain, q.index ≤ s.index
  := by
  induction hchain with
  | outermost =>
    use List.pairwise_singleton _ _
    intro q hq
    rw [List.mem_singleton.mp hq]
  | @inner s p chain hparent hchain ih =>
    have hlt := h.index_parent_lt hs hparent
    obtain ⟨hsorted, hle⟩ := ih (Nat.lt_trans hlt hs)
    have hltAll (q : ScopeId) (hq : q ∈ chain) : q.index < s.index :=
      Nat.lt_of_le_of_lt (hle q hq) hlt
    use List.pairwise_cons.mpr ⟨hltAll, hsorted⟩
    exact List.forall_mem_cons.mpr ⟨Nat.le_refl _, fun q hq => Nat.le_of_lt (hltAll q hq)⟩

/-! ## Growing the ranges along a chain -/

/-- Modifying different scopes one after the other modifies each of them once. -/
theorem scope_foldl_modifyScope (f : Scope → Scope) {scopes : List ScopeId}
    (hscopes : scopes.Nodup) (t : Tree) (hexist : ∀ s ∈ scopes, t.HasScope s) (q : ScopeId) :
  (scopes.foldl (fun u s => u.modifyScope s f) t).scope q
    = if q ∈ scopes then f (t.scope q) else t.scope q
  := by
  induction scopes generalizing t with
  | nil => rfl
  | cons s scopes ih =>
    obtain ⟨hnew, hscopes⟩ := List.nodup_cons.mp hscopes
    obtain ⟨hs, hexist⟩ := List.forall_mem_cons.mp hexist
    have hexist' (r : ScopeId) (hr : r ∈ scopes) : (t.modifyScope s f).HasScope r := by
      simpa [HasScope] using hexist r hr
    rw [List.foldl_cons, ih hscopes _ hexist', scope_modifyScope]
    by_cases hq : q = s
    · subst hq
      rw [if_neg hnew, if_pos ⟨rfl, hs⟩, if_pos List.mem_cons_self]
    · simp [hq]

/-- The ranges of `s` and the scopes around it grow, and no others. -/
theorem Coherent.range_addRange (h : t.Coherent) {s : ScopeId} (hs : t.HasScope s) (span : Span)
    (q : ScopeId) :
  ((t.addRange s span).scope q).range
    = if q ∈ t.hosts s then some (growRange (t.scope q).range span) else (t.scope q).range
  := by
  obtain ⟨hsorted, hle⟩ := h.sorted_outward hs (h.outward_hosts hs)
  have hnodup : (t.hosts s).Nodup := by
    apply hsorted.imp
    rintro p q hlt rfl
    exact Nat.lt_irrefl _ hlt
  have hexist (q : ScopeId) (hq : q ∈ t.hosts s) : t.HasScope q :=
    Nat.lt_of_le_of_lt (hle q hq) hs
  rw [addRange, scope_foldl_modifyScope _ hnodup t hexist]
  split <;> rfl

/-! ## Nested ranges -/

/-- The range of a scope is encompassed by that of its parent. -/
def Nested (t : Tree) : Prop :=
  ∀ p s range, (t.scope s).parent = some p → (t.scope s).range = some range →
    ∃ outer, (t.scope p).range = some outer ∧ outer.Encompasses range

/-- Whether ranges are nested is read off parents and ranges. -/
theorem Nested.of_eq (h : t.Nested) (hparent : ∀ s, (t'.scope s).parent = (t.scope s).parent)
    (hrange : ∀ s, (t'.scope s).range = (t.scope s).range) :
  t'.Nested
  := by
  intro p s range hp hs
  rw [hparent] at hp
  rw [hrange] at hs ⊢
  apply h p s range hp hs

/-- Trees that are alike have the same parents and ranges, so their ranges are nested together. -/
theorem Nested.of_alike (h : t.Nested) (halike : t.Alike t') :
  t'.Nested
  := h.of_eq halike.parent halike.range

/-- Without any range all ranges are nested. -/
theorem nested_initial :
  initial.Nested
  := by
  intro p s range hp
  obtain ⟨i⟩ := s
  cases i <;> contradiction

/-- If a scope grows, so does its parent, by the same span. -/
theorem Nested.addRange (h : t.Nested) (hcoherent : t.Coherent) {s : ScopeId}
    (hs : t.HasScope s) (span : Span) :
  (t.addRange s span).Nested
  := by
  intro p q range hp hq
  rw [(t.sameFrame_addRange s span).parent] at hp
  rw [hcoherent.range_addRange hs] at hq ⊢
  by_cases hqmem : q ∈ t.hosts s
  · -- the parent of a scope that grows does so too
    have hpmem : p ∈ t.hosts s := (hcoherent.outward_hosts hs).parent_mem hqmem hp
    rw [if_pos hqmem] at hq
    obtain rfl := Option.some.inj hq
    rw [if_pos hpmem]
    use growRange (t.scope p).range span, rfl
    cases hinner : (t.scope q).range with
    | none =>
      cases (t.scope p).range with
      | none => exact ⟨Nat.le_refl _, Nat.le_refl _⟩
      | some outer => apply outer.cover_encompasses_right
    | some inner =>
      obtain ⟨outer, houter, hencompasses⟩ := h p q inner hp hinner
      rw [houter]
      apply hencompasses.cover
  · rw [if_neg hqmem] at hq
    obtain ⟨outer, houter, hencompasses⟩ := h p q range hp hq
    by_cases hpmem : p ∈ t.hosts s
    · rw [if_pos hpmem, houter]
      use outer.cover span, rfl
      apply (outer.cover_encompasses_left span).trans hencompasses
    · rw [if_neg hpmem]
      exact ⟨outer, houter, hencompasses⟩

/-- Nothing but a span that is added changes a range. -/
theorem range_apply_of_ne {o : Operation} (ho : ∀ q span, o ≠ .addRange q span) (s : ScopeId) :
  ((o.apply t).scope s).range = (t.scope s).range
  := by
  apply field_scope_apply Scope.range (fun _ _ _ _ => rfl)
  intro f hf q
  cases hf with
  | addRange r span => exact absurd rfl (ho r span)
  | _ => rfl

/-- A valid operation keeps the ranges of a tree nested. -/
theorem Nested.apply (h : t.Nested) (hcoherent : t.Coherent) {o : Operation} (ho : o.Valid t) :
  (o.apply t).Nested
  := by
  by_cases hadd : ∃ s span, o = .addRange s span
  · obtain ⟨s, span, rfl⟩ := hadd
    apply h.addRange hcoherent ho
  · have hrange := range_apply_of_ne (t := t) fun s span heq => hadd ⟨s, span, heq⟩
    intro p s range hp hs
    rw [hrange] at hs ⊢
    -- a new scope has no range, so this one has the parent that it had
    have hexists : t.HasScope s := by
      by_contra hmissing
      rw [scope_eq_default hmissing] at hs
      contradiction
    rw [(t.persists_apply o).parent hexists] at hp
    apply h p s range hp hs

/-- Every tree that can be reached has nested ranges. -/
theorem Reachable.nested (ht : t.Reachable) :
  t.Nested
  := by
  obtain ⟨r, hr, rfl⟩ := ht
  have h : r.context.tree.Coherent ∧ r.context.tree.Nested := by
    apply hr.tree_induction (P := fun t => t.Coherent ∧ t.Nested)
    · exact ⟨coherent_initial, nested_initial⟩
    · rintro t t' ⟨hcoherent, hnested⟩ halike
      exact ⟨hcoherent.of_alike halike, hnested.of_alike halike⟩
    · rintro t o ⟨hcoherent, hnested⟩ ho
      exact ⟨hcoherent.apply ho, hnested.apply hcoherent ho⟩
  apply h.2

/-! ## Containment and look-up by place -/

/-- The range of a scope is encompassed by that of the global scope. -/
theorem Nested.encompassed_by_global (h : t.Nested) (hcoherent : t.Coherent) {s : ScopeId}
    (hs : t.HasScope s) {range : Span} (hrange : (t.scope s).range = some range) :
  ∃ outer, (t.scope .global).range = some outer ∧ outer.Encompasses range
  := by
  induction hi : s.index using Nat.strongRecOn generalizing s range with
  | ind i ih =>
    by_cases hglobal : s = .global
    · rw [hglobal] at hrange
      exact ⟨range, hrange, Nat.le_refl _, Nat.le_refl _⟩
    · obtain ⟨p, hparent, hlt⟩ := hcoherent.parent s hs hglobal
      obtain ⟨middle, hmiddle, hinner⟩ := h p s range hparent hrange
      obtain ⟨outer, houter, hmiddle⟩ :=
        ih p.index (hi ▸ hlt) (Nat.lt_trans hlt hs) hmiddle rfl
      exact ⟨outer, houter, hmiddle.trans hinner⟩

/-- A search succeeds exactly from a scope whose range contains the span. -/
theorem isSome_findScope_iff (s : ScopeId) (span : Span) :
  (t.findScope s span).isSome = true ↔ t.covers span s = true
  := by
  rw [findScope]
  split <;> simp_all

/-- A scope covers a span if its range is known and contains the span. -/
theorem covers_iff {s : ScopeId} {span : Span} :
  t.covers span s = true ↔ ∃ range, (t.scope s).range = some range ∧ range.Contains span
  := by
  simp [covers, Option.any_eq_true]

/-- The range of a scope has the offsets of every range of a scope inside it between its own, and
contains those in its own file.  Hence a span that some scope covers is found from the global
scope exactly if it is in the file of the range of that scope. -/
theorem contains_iff_of_reachable (ht : t.Reachable) :
  (∀ p s range, s ∈ (t.scope p).children → (t.scope s).range = some range →
    ∃ outer, (t.scope p).range = some outer ∧ outer.Encompasses range
      ∧ (outer.Contains range ↔ outer.file = range.file))
    ∧ ∀ s span, t.HasScope s → t.covers span s = true →
      ∃ outer, (t.scope .global).range = some outer
        ∧ ((t.findScope .global span).isSome = true ↔ outer.file = span.file)
  := by
  have hcoherent := ht.coherent
  have hnested := ht.nested
  constructor
  · intro p s range hs hrange
    have hparent := ((hcoherent.children p s).mp hs).2
    obtain ⟨outer, houter, hencompasses⟩ := hnested p s range hparent hrange
    refine ⟨outer, houter, hencompasses, ?_⟩
    rw [Span.contains_iff, and_iff_left hencompasses]
  · intro s span hs hcovers
    obtain ⟨range, hrange, hcontains⟩ := covers_iff.mp hcovers
    obtain ⟨outer, houter, hencompasses⟩ :=
      hnested.encompassed_by_global hcoherent hs hrange
    have hspan : outer.Encompasses span := hencompasses.trans hcontains.2
    refine ⟨outer, houter, ?_⟩
    rw [isSome_findScope_iff, covers_iff]
    constructor
    · rintro ⟨range', hrange', hcontains'⟩
      obtain rfl := Option.some.inj (houter.symm.trans hrange')
      apply hcontains'.1
    · intro hfile
      exact ⟨outer, houter, hfile, hspan⟩

/-- Two scopes in the global one, with ranges in two files. -/
def twoFilesRun : List Session.Operation :=
  [.onTree (.makeScope .global .mainProgram none),
    .onTree (.makeScope .global .subprogram none),
    .onTree (.addRange ⟨1⟩ ⟨"a.f90", 0, 10⟩),
    .onTree (.addRange ⟨2⟩ ⟨"b.f90", 0, 10⟩)]

/-- The tree with ranges in two files is reached by valid operations. -/
theorem reachable_twoFilesRun :
  ((Session.initial .standard).run twoFilesRun).context.tree.Reachable
  := by
  have hvalid : (Session.initial .standard).ValidRun twoFilesRun := by decide +kernel
  exact ⟨_, (Session.Reachable.initial .standard).run hvalid, rfl⟩

/-- In the tree with ranges in two files the offsets of every range are encompassed, and containment
and the search from the global scope depend on the file alone. -/
theorem contains_iff_twoFilesRun :
  let t := ((Session.initial .standard).run twoFilesRun).context.tree
  t.Reachable
    ∧ (∀ p s range, s ∈ (t.scope p).children → (t.scope s).range = some range →
      ∃ outer, (t.scope p).range = some outer ∧ outer.Encompasses range
        ∧ (outer.Contains range ↔ outer.file = range.file))
    ∧ ∀ s span, t.HasScope s → t.covers span s = true →
      ∃ outer, (t.scope .global).range = some outer
        ∧ ((t.findScope .global span).isSome = true ↔ outer.file = span.file)
  := ⟨reachable_twoFilesRun, contains_iff_of_reachable reachable_twoFilesRun⟩

/-- The global range stays in the first file, so what belongs to the second scope is not found
from the global one. -/
theorem not_contains_twoFilesRun :
  let t := ((Session.initial .standard).run twoFilesRun).context.tree
  ⟨2⟩ ∈ (t.scope .global).children
    ∧ (t.scope ⟨2⟩).range = some ⟨"b.f90", 0, 10⟩
    ∧ (t.scope .global).range = some ⟨"a.f90", 0, 10⟩
    ∧ ¬ Span.Contains ⟨"a.f90", 0, 10⟩ ⟨"b.f90", 0, 10⟩
    ∧ t.covers ⟨"b.f90", 2, 3⟩ ⟨2⟩ = true
    ∧ t.findScope .global ⟨"b.f90", 2, 3⟩ = none
  := by
  decide +kernel

end Tree

end FortranScope
