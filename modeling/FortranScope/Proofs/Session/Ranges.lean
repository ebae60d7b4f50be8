import FortranScope.Proofs.Session.Integrity
import FortranScope.Proofs.Tree.Containment
import FortranScope.Proofs.Tree.Reordering
import Mathlib.Order.Bounds.Basic

/-!
# Source ranges are hulls

A span may be added to a scope at any time of a run, before or after scopes are created around the
place.  The range of a scope is known as soon as a span was added to it or to a scope inside it,
and then reaches from the least offset at which such a span starts to the greatest at which one
stops.  Hence it depends only on the offsets of these spans, whatever their order, and it covers
those of every scope inside.  Spans may be empty or stop before they start.
-/

namespace FortranScope

/-! ## Hulls of sets of spans -/

/-- Where a span starts and stops. -/
def Span.offsets (s : Span) : Nat × Nat := (s.start, s.stop)

/-- The range is unknown if there are no spans.  Otherwise it starts with the first one of them
and stops with the last one. -/
structure Hull (spans : Set Span) (range : Option Span) : Prop where
  none_iff : range = none ↔ spans = ∅
  least : ∀ r, range = some r → IsLeast (Span.start '' spans) r.start
  greatest : ∀ r, range = some r → IsGreatest (Span.stop '' spans) r.stop

namespace Hull

variable {spans spans' : Set Span} {range range' : Option Span}

/-- Where no span was added the range is unknown. -/
theorem empty :
  Hull ∅ none
  where
  none_iff := by simp
  least := by simp
  greatest := by simp

/-- A range that grows by a span is a hull of one more span. -/
theorem insert (h : Hull spans range) (span : Span) :
  Hull (insert span spans) (some (Tree.growRange range span))
  := by
  cases range with
  | none =>
    obtain rfl := h.none_iff.mp rfl
    constructor
    · simp
    · rintro r ⟨⟩
      simp [Tree.growRange, isLeast_singleton]
    · rintro r ⟨⟩
      simp [Tree.growRange, isGreatest_singleton]
  | some r =>
    constructor
    · simp [(Set.insert_nonempty span spans).ne_empty]
    · rintro _ ⟨⟩
      rw [Set.image_insert_eq, Tree.growRange, Span.cover, min_comm]
      apply (h.least r rfl).insert
    · rintro _ ⟨⟩
      rw [Set.image_insert_eq, Tree.growRange, Span.cover, max_comm]
      apply (h.greatest r rfl).insert

/-- The hull of more spans reaches as far at least. -/
theorem encompasses (h : Hull spans range) (h' : Hull spans' range') (hsub : spans ⊆ spans')
    {r : Span} (hr : range = some r) :
  ∃ r', range' = some r' ∧ r'.Encompasses r
  := by
  have hleast := h.least r hr
  have hgreatest := h.greatest r hr
  cases hr' : range' with
  | none =>
    have hempty := h'.none_iff.mp hr'
    obtain ⟨span, hspan, -⟩ := hleast.1
    have hmem := hsub hspan
    rw [hempty] at hmem
    contradiction
  | some r' =>
    use r', rfl
    constructor
    · exact hleast.mono (h'.least r' hr') (Set.image_mono hsub)
    · exact hgreatest.mono (h'.greatest r' hr') (Set.image_mono hsub)

/-- Hulls of spans with the same offsets have the same offsets. -/
theorem offsets_eq (h : Hull spans range) (h' : Hull spans' range')
    (heq : Span.offsets '' spans' = Span.offsets '' spans) :
  range'.map Span.offsets = range.map Span.offsets
  := by
  have himage (f : Nat × Nat → Nat) :
      (fun s : Span => f s.offsets) '' spans' = (fun s : Span => f s.offsets) '' spans := by
    rw [← Set.image_image f Span.offsets, heq, Set.image_image]
  have hstart : Span.start '' spans' = Span.start '' spans := himage Prod.fst
  have hstop : Span.stop '' spans' = Span.stop '' spans := himage Prod.snd
  have hnone : range' = none ↔ range = none := by
    rw [h.none_iff, h'.none_iff, ← Set.image_eq_empty (f := Span.offsets), heq,
      Set.image_eq_empty]
  cases hr : range with
  | none => rw [hnone.mpr hr]
  | some r =>
    cases hr' : range' with
    | none =>
      rw [hnone.mp hr'] at hr
      contradiction
    | some r' =>
      have hleast := h'.least r' hr'
      have hgreatest := h'.greatest r' hr'
      rw [hstart] at hleast
      rw [hstop] at hgreatest
      simp only [Option.map_some, Span.offsets, hleast.unique (h.least r hr),
        hgreatest.unique (h.greatest r hr)]

end Hull

namespace Tree

variable {t t' : Tree}

/-! ## Scopes at or inside a scope -/

/-- `q` is `s`, or is inside it. -/
def Within (t : Tree) (q s : ScopeId) : Prop := s = q ∨ t.Encloses s q

/-- What is within a child is within its parent. -/
theorem Within.of_parent {q c s : ScopeId} (h : t.Within q c) (hc : (t.scope c).parent = some s) :
  t.Within q s
  := by
  rcases h with rfl | hencloses
  · exact .inr (Relation.TransGen.single hc)
  · exact .inr (Relation.TransGen.head hc hencloses)

/-- The scopes whose ranges grow with that of `q` are those that `q` is within. -/
theorem Coherent.mem_hosts_iff (h : t.Coherent) {q s : ScopeId} (hq : t.HasScope q) :
  s ∈ t.hosts q ↔ t.Within q s
  := by
  constructor
  · apply eq_or_encloses_of_mem_hosts
  · rintro (rfl | hencloses)
    · apply self_mem_hosts
    · have hchain := h.outward_hosts hq
      induction hencloses using Relation.TransGen.head_induction_on with
      | single hparent => exact hchain.parent_mem hchain.head_mem hparent
      | head hparent _ ih => exact hchain.parent_mem ih hparent

/-- What an existing scope is within is settled when it is created. -/
theorem Persists.within_iff (h : t.Persists t') (hcoherent : t.Coherent) {q s : ScopeId}
    (hq : t.HasScope q) :
  t'.Within q s ↔ t.Within q s
  := by
  have hencloses : t'.Encloses s q ↔ t.Encloses s q := by
    constructor
    · intro hs
      induction hs with
      | single hp =>
        rw [h.parent hq] at hp
        exact .single hp
      | tail _ hp ih =>
        rw [h.parent hq] at hp
        exact .tail (ih (hcoherent.hasScope_of_parent hq hp)) hp
    · intro hs
      induction hs with
      | single hp =>
        apply Relation.TransGen.single
        rw [h.parent hq, hp]
      | tail _ hp ih =>
        apply Relation.TransGen.tail (ih (hcoherent.hasScope_of_parent hq hp))
        rw [h.parent hq, hp]
  rw [Within, Within, hencloses]

end Tree

namespace Session

variable {r : Session} {operations : List Operation} {o : Operation}

/-! ## Steps -/

/-- Only adding a range changes a range. -/
theorem range_apply_of_ne (ho : ∀ q span, o ≠ .onTree (.addRange q span)) (s : ScopeId) :
  ((o.apply r).context.tree.scope s).range = (r.context.tree.scope s).range
  := by
  cases o with
  | onTree o =>
    apply Tree.range_apply_of_ne
    rintro q span rfl
    exact ho q span rfl
  | say d => rfl
  | analyze s' phrase =>
    obtain ⟨gained, hgained⟩ := (r.extends_analyze s' phrase).tree
    apply (Tree.alike_of_outline_eq hgained.outline_eq).range
  | fold e => rfl
  | resolve =>
    rw [Operation.apply, resolve_eq]
    apply (Tree.alike_of_outline_eq r.settles_pass.outline).range

/-- The spans that the operations add to `s` or to a scope inside it. -/
def spansWithin (t : Tree) (operations : List Operation) (s : ScopeId) : Set Span :=
  {span | ∃ q, .onTree (.addRange q span) ∈ operations ∧ t.Within q s}

/-- After the operations, the scopes that they added spans to exist, and ranges are hulls. -/
structure Hulls (operations : List Operation) (r : Session) : Prop where
  reachable : r.Reachable
  exist : ∀ q span, .onTree (.addRange q span) ∈ operations → r.context.tree.HasScope q
  hull : ∀ s, Hull (spansWithin r.context.tree operations s) (r.context.tree.scope s).range

/-- Without operations no scope has a range. -/
theorem hulls_initial (config : Config) :
  Hulls [] (.initial config)
  where
  reachable := .initial config
  exist := by simp
  hull s := by
    have hspans : spansWithin (initial config).context.tree [] s = ∅ := by simp [spansWithin]
    have hrange : ((initial config).context.tree.scope s).range = none := by
      obtain ⟨i⟩ := s
      cases i <;> rfl
    rw [hspans, hrange]
    exact .empty

namespace Hulls

section

variable (h : Hulls operations r)

include h

/-- The spans that were added before are within the same scopes as before. -/
theorem spansWithin_apply (o : Operation) (s : ScopeId) :
  spansWithin (o.apply r).context.tree operations s = spansWithin r.context.tree operations s
  := by
  ext span
  have hwithin (q : ScopeId) (hq : .onTree (.addRange q span) ∈ operations) :=
    (r.persists_apply o).within_iff h.reachable.coherent (s := s) (h.exist q span hq)
  constructor
  · rintro ⟨q, hq, hs⟩
    exact ⟨q, hq, (hwithin q hq).mp hs⟩
  · rintro ⟨q, hq, hs⟩
    exact ⟨q, hq, (hwithin q hq).mpr hs⟩

/-- Operations that add no range keep all hulls. -/
theorem hull_apply_of_ne (ho : ∀ q span, o ≠ .onTree (.addRange q span)) (s : ScopeId) :
  Hull (spansWithin (o.apply r).context.tree (operations ++ [o]) s)
    ((o.apply r).context.tree.scope s).range
  := by
  have hspans : spansWithin (o.apply r).context.tree (operations ++ [o]) s
      = spansWithin (o.apply r).context.tree operations s := by
    ext span
    simp [spansWithin, (ho _ span).symm]
  rw [hspans, h.spansWithin_apply, range_apply_of_ne ho]
  apply h.hull

/-- A span that is added to `q` is one more span for the scopes that `q` is within. -/
theorem hull_addRange {q : ScopeId} (hq : r.context.tree.HasScope q) (span : Span)
    (s : ScopeId) :
  let o : Operation := .onTree (.addRange q span)
  Hull (spansWithin (o.apply r).context.tree (operations ++ [o]) s)
    ((o.apply r).context.tree.scope s).range
  := by
  intro o
  have hcoherent := h.reachable.coherent
  have hrange : ((o.apply r).context.tree.scope s).range = _ :=
    hcoherent.range_addRange hq span s
  have hwithin : (o.apply r).context.tree.Within q s ↔ s ∈ r.context.tree.hosts q := by
    rw [hcoherent.mem_hosts_iff hq]
    exact (r.persists_apply o).within_iff hcoherent hq
  -- a span added within `s` is one that was added before, or is the new one
  have hmem (span' : Span) : span' ∈ spansWithin (o.apply r).context.tree (operations ++ [o]) s
      ↔ span' ∈ spansWithin r.context.tree operations s
        ∨ span' = span ∧ s ∈ r.context.tree.hosts q := by
    rw [← h.spansWithin_apply o, ← hwithin]
    constructor
    · rintro ⟨q', hq', hs⟩
      rcases List.mem_append.mp hq' with hq' | hq'
      · exact .inl ⟨q', hq', hs⟩
      · obtain ⟨rfl, rfl⟩ : q' = q ∧ span' = span := by simpa [o] using hq'
        exact .inr ⟨rfl, hs⟩
    · rintro (⟨q', hq', hs⟩ | ⟨rfl, hs⟩)
      · exact ⟨q', List.mem_append_left _ hq', hs⟩
      · exact ⟨q, List.mem_append_right _ (List.mem_singleton_self o), hs⟩
  rw [hrange]
  split
  · next hs =>
    have hspans : spansWithin (o.apply r).context.tree (operations ++ [o]) s
        = insert span (spansWithin r.context.tree operations s) := by
      ext span'
      rw [hmem, Set.mem_insert_iff, and_iff_left hs, or_comm]
    rw [hspans]
    apply (h.hull s).insert
  · next hs =>
    have hspans : spansWithin (o.apply r).context.tree (operations ++ [o]) s
        = spansWithin r.context.tree operations s := by
      ext span'
      rw [hmem, or_iff_left]
      exact fun hspan => hs hspan.2
    rw [hspans]
    apply h.hull

/-- One more operation keeps ranges hulls. -/
theorem step (ho : o.Valid r) :
  Hulls (operations ++ [o]) (o.apply r)
  where
  reachable := h.reachable.step o ho
  exist q span hq := by
    rcases List.mem_append.mp hq with hq | hq
    · exact (r.persists_apply o).hasScope (h.exist q span hq)
    · obtain rfl := List.mem_singleton.mp hq
      exact (r.persists_apply _).hasScope ho
  hull s := by
    by_cases hadds : ∃ q span, o = .onTree (.addRange q span)
    · obtain ⟨q, span, rfl⟩ := hadds
      apply h.hull_addRange ho
    · apply h.hull_apply_of_ne
      intro q span heq
      exact hadds ⟨q, span, heq⟩

end

/-- All operations of a run do. -/
theorem run {later : List Operation} (h : Hulls operations r) (hvalid : r.ValidRun later) :
  Hulls (operations ++ later) (r.run later)
  := by
  induction later generalizing r operations with
  | nil =>
    rw [List.append_nil]
    exact h
  | cons o rest ih =>
    have hrest := ih (h.step hvalid.1) hvalid.2
    rw [List.append_assoc] at hrest
    exact hrest

end Hulls

/-! ## Runs -/

/-- The range of a scope is unknown exactly if the operations added no span to it or to a scope
inside it.  Otherwise it starts where the first of these spans does and stops where the last one
does.  So it never shrinks, it has the same offsets after all runs in which the spans have the
same offsets, and it reaches as far as the ranges of the scopes directly inside. -/
theorem range_hull {config : Config} {operations : List Operation}
    (hvalid : (initial config).ValidRun operations) (s : ScopeId) :
  let r := (initial config).run operations
  let t := r.context.tree
  let spans := spansWithin t operations s
  ((t.scope s).range = none ↔ spans = ∅)
    ∧ (∀ range, (t.scope s).range = some range →
      IsLeast (Span.start '' spans) range.start ∧ IsGreatest (Span.stop '' spans) range.stop)
    ∧ (∀ later range, r.ValidRun later → (t.scope s).range = some range →
      ∃ range', ((r.run later).context.tree.scope s).range = some range'
        ∧ range'.Encompasses range)
    ∧ (∀ config' operations' s', (initial config').ValidRun operations' →
      let t' := ((initial config').run operations').context.tree
      Span.offsets '' spansWithin t' operations' s' = Span.offsets '' spans →
        (t'.scope s').range.map Span.offsets = (t.scope s).range.map Span.offsets)
    ∧ ∀ c range, c ∈ (t.scope s).children → (t.scope c).range = some range →
      ∃ outer, (t.scope s).range = some outer ∧ outer.Encompasses range
  := by
  intro r t spans
  have h : Hulls operations r := (hulls_initial config).run hvalid
  refine ⟨(h.hull s).none_iff, ?_, ?_, ?_, ?_⟩
  · intro range hrange
    exact ⟨(h.hull s).least range hrange, (h.hull s).greatest range hrange⟩
  · intro later range hlater
    have hsub : spans ⊆ spansWithin (r.run later).context.tree (operations ++ later) s := by
      rintro span ⟨q, hq, hs⟩
      refine ⟨q, List.mem_append_left _ hq, ?_⟩
      exact ((r.persists_run later).within_iff h.reachable.coherent (h.exist q span hq)).mpr hs
    exact (h.hull s).encompasses ((h.run hlater).hull s) hsub
  · intro config' operations' s' hvalid' t' heq
    have h' := (hulls_initial config').run hvalid'
    exact (h.hull s).offsets_eq (h'.hull s') heq
  · intro c range hc
    have hparent := ((h.reachable.coherent.children s c).mp hc).2
    apply (h.hull c).encompasses (h.hull s)
    rintro span ⟨q, hq, hwithin⟩
    exact ⟨q, hq, hwithin.of_parent hparent⟩

/-- A main program with two blocks, which are created after the main program got a span that
stops before it starts.  The first block gets an empty span in another file. -/
def interleavedRun : List Operation :=
  [.onTree (.makeScope .global .mainProgram none),
    .onTree (.addRange ⟨1⟩ ⟨"a.f90", 40, 30⟩),
    .onTree (.makeScope ⟨1⟩ .block none),
    .onTree (.addRange ⟨2⟩ ⟨"b.f90", 60, 60⟩),
    .onTree (.makeScope ⟨1⟩ .block none),
    .onTree (.addRange .global ⟨"a.f90", 5, 10⟩)]

/-- In the run with interleaved ranges every range is the hull of the spans added within its scope.
-/
theorem range_hull_interleavedRun :
  let r := (initial .standard).run interleavedRun
  let t := r.context.tree
  let spans := spansWithin t interleavedRun ⟨1⟩
  (initial .standard).ValidRun interleavedRun
    ∧ ((t.scope .global).range = some ⟨"a.f90", 5, 60⟩
      ∧ (t.scope ⟨1⟩).range = some ⟨"a.f90", 40, 60⟩
      ∧ (t.scope ⟨2⟩).range = some ⟨"b.f90", 60, 60⟩
      ∧ (t.scope ⟨3⟩).range = none)
    ∧ ((t.scope ⟨1⟩).range = none ↔ spans = ∅)
    ∧ (∀ range, (t.scope ⟨1⟩).range = some range →
      IsLeast (Span.start '' spans) range.start ∧ IsGreatest (Span.stop '' spans) range.stop)
    ∧ (∀ later range, r.ValidRun later → (t.scope ⟨1⟩).range = some range →
      ∃ range', ((r.run later).context.tree.scope ⟨1⟩).range = some range'
        ∧ range'.Encompasses range)
    ∧ (∀ config' operations' s', (initial config').ValidRun operations' →
      let t' := ((initial config').run operations').context.tree
      Span.offsets '' spansWithin t' operations' s' = Span.offsets '' spans →
        (t'.scope s').range.map Span.offsets = (t.scope ⟨1⟩).range.map Span.offsets)
    ∧ ∀ c range, c ∈ (t.scope ⟨1⟩).children → (t.scope c).range = some range →
      ∃ outer, (t.scope ⟨1⟩).range = some outer ∧ outer.Encompasses range
  := by
  have hvalid : (initial .standard).ValidRun interleavedRun := by decide +kernel
  refine ⟨hvalid, ?_, range_hull hvalid ⟨1⟩⟩
  decide +kernel

end Session

end FortranScope
