import FortranScope.Proofs.Guarded.LookUp
import FortranScope.Proofs.Tree.Containment
import FortranScope.Proofs.Tree.Reordering

/-!
# The innermost scope around a place

A place of the source is looked up by going inward: from a scope whose range contains the span to
the first scope directly inside it whose range does too, for as long as there is one.  Ranges of
siblings may overlap, may be in different files or may be missing, so the way inward is described
scope by scope.  There is exactly one such way from a scope whose range contains the span, and
the search ends where it does.
-/

namespace FortranScope.Tree

variable {t : Tree} {span : Span} {s c d : ScopeId}

/-! ## The way inward -/

/-- The range of `s` is known and contains `span`. -/
def Surrounds (t : Tree) (span : Span) (s : ScopeId) : Prop :=
  ∃ range, (t.scope s).range = some range ∧ range.Contains span

/-- Of the scopes directly inside `s` that surround `span`, `c` was created first. -/
structure FirstInside (t : Tree) (span : Span) (s c : ScopeId) : Prop where
  parent : (t.scope c).parent = some s
  surrounds : t.Surrounds span c
  oldest : ∀ q, (t.scope q).parent = some s → t.Surrounds span q → c.index ≤ q.index

/-- The way inward from `s` ends at `d`.  All scopes on it surround `span`, each but `s` is the
first one inside the scope before it that does, and no scope directly inside `d` does. -/
inductive Descends (t : Tree) (span : Span) : ScopeId → ScopeId → Prop
  | innermost {s : ScopeId} (hs : t.Surrounds span s)
      (hnone : ∀ c, (t.scope c).parent = some s → ¬ t.Surrounds span c) : t.Descends span s s
  | inward {s c d : ScopeId} (hs : t.Surrounds span s) (hc : t.FirstInside span s c)
      (hd : t.Descends span c d) : t.Descends span s d

/-- At most one of the scopes inside `s` is the first to surround the span. -/
theorem FirstInside.unique {c' : ScopeId} (h : t.FirstInside span s c)
    (h' : t.FirstInside span s c') :
  c' = c
  := by
  obtain ⟨i⟩ := c
  obtain ⟨j⟩ := c'
  have hle : i ≤ j := h.oldest _ h'.parent h'.surrounds
  have hge : j ≤ i := h'.oldest _ h.parent h.surrounds
  rw [Nat.le_antisymm hge hle]

/-- There is at most one way inward from a scope. -/
theorem Descends.unique {d' : ScopeId} (h : t.Descends span s d) (h' : t.Descends span s d') :
  d' = d
  := by
  induction h with
  | innermost _ hnone =>
    cases h' with
    | innermost => rfl
    | inward _ hc => exact absurd hc.surrounds (hnone _ hc.parent)
  | inward _ hc _ ih =>
    cases h' with
    | innermost _ hnone => exact absurd hc.surrounds (hnone _ hc.parent)
    | inward _ hc' hd' =>
      obtain rfl := hc.unique hc'
      apply ih hd'

/-! ## The search -/

/-- What the search examines of a scope is whether it surrounds the span. -/
theorem covers_iff_surrounds :
  t.covers span s = true ↔ t.Surrounds span s
  := covers_iff

section

variable (h : t.Coherent)

include h

/-- Where the search finds no scope directly inside `s`, none of them surrounds the span. -/
theorem Coherent.not_surrounds_of_find? (hfind : (t.scope s).children.find? (t.covers span) = none)
    (hparent : (t.scope c).parent = some s) :
  ¬ t.Surrounds span c
  := by
  intro hc
  have hmem : c ∈ (t.scope s).children :=
    (h.children s c).mpr ⟨hasScope_of_parent_eq_some hparent, hparent⟩
  apply List.find?_eq_none.mp hfind c hmem
  exact covers_iff_surrounds.mpr hc

variable (hordered : ∀ s, (t.scope s).children.Pairwise fun q r => q.index < r.index)

include hordered

/-- The scopes directly inside `s` are listed in the order of their creation, so the first one in
the list is the oldest. -/
theorem Coherent.firstInside_of_find?
    (hfind : (t.scope s).children.find? (t.covers span) = some c) :
  t.FirstInside span s c
  := by
  obtain ⟨hcovers, before, after, hchildren, hbefore⟩ :=
    List.find?_eq_some_iff_append.mp hfind
  have hsorted := hordered s
  rw [hchildren, List.pairwise_append, List.pairwise_cons] at hsorted
  constructor
  · exact ((h.children s c).mp (List.mem_of_find?_eq_some hfind)).2
  · exact covers_iff_surrounds.mp hcovers
  · intro q hparent hq
    have hmem : q ∈ (t.scope s).children :=
      (h.children s q).mpr ⟨hasScope_of_parent_eq_some hparent, hparent⟩
    rw [hchildren] at hmem
    rcases List.mem_append.mp hmem with hmem | hmem
    · have hskipped := hbefore q hmem
      rw [covers_iff_surrounds.mpr hq] at hskipped
      contradiction
    · rcases List.mem_cons.mp hmem with rfl | hmem
      · exact Nat.le_refl _
      · exact Nat.le_of_lt (hsorted.2.1.1 q hmem)

/-- From a scope that surrounds the span the search goes the way inward, to its end. -/
theorem Coherent.descends_innermost (hs : t.Surrounds span s) :
  t.Descends span s (t.innermost span s)
  := by
  -- every step leads to a younger scope, so fewer and fewer are left
  induction hleft : t.scopes.size - s.index using Nat.strongRecOn generalizing s with
  | ind left ih =>
    rw [Tree.innermost]
    cases hfind : (t.scope s).children.find? (t.covers span) with
    | none => exact .innermost hs fun c => h.not_surrounds_of_find? hfind
    | some c =>
      have hc := h.firstInside_of_find? hordered hfind
      have hexists : c.index < t.scopes.size := hasScope_of_parent_eq_some hc.parent
      have hlt := h.index_parent_lt hexists hc.parent
      simp only [if_pos (And.intro hlt hexists)]
      apply Descends.inward hs hc
      apply ih (t.scopes.size - c.index) _ hc.surrounds rfl
      omega

/-- The search finds exactly the end of the way inward. -/
theorem Coherent.findScope_eq_some_iff :
  t.findScope s span = some d ↔ t.Descends span s d
  := by
  constructor
  · intro hfind
    rw [findScope] at hfind
    split at hfind
    · next hcovers =>
      obtain rfl := Option.some.inj hfind
      apply h.descends_innermost hordered (covers_iff_surrounds.mp hcovers)
    · contradiction
  · intro hd
    have hs : t.Surrounds span s := by cases hd <;> assumption
    rw [findScope, if_pos (covers_iff_surrounds.mpr hs)]
    rw [hd.unique (h.descends_innermost hordered hs)]

end

/-- The search finds nothing exactly if the scope itself does not surround the span. -/
theorem findScope_eq_none_iff :
  t.findScope s span = none ↔ ¬ t.Surrounds span s
  := by
  rw [← covers_iff_surrounds, ← isSome_findScope_iff, Bool.not_eq_true, Option.isSome_eq_false_iff,
    Option.isNone_iff_eq_none]

/-- The scopes directly inside another one are listed by age. -/
theorem Sound.pairwise_children (h : t.Sound) (s : ScopeId) :
  (t.scope s).children.Pairwise fun q r => q.index < r.index
  := by
  by_cases hs : t.HasScope s
  · apply (h.scope s hs).ordered
  · rw [scope_eq_default hs]
    exact List.Pairwise.nil

/-- Nothing is found exactly if the scope has no range or one that does not contain the span.
Otherwise the scope that is found is the end of the way inward.  The search that tries the scopes
inside one after the other, and falls back to the scope itself, comes to the same end. -/
theorem findScope_innermost (ht : t.Reachable) (hs : t.HasScope s) (span : Span) :
  (t.findScope s span = none ↔ ¬ t.Surrounds span s)
    ∧ (∀ d, t.findScope s span = some d ↔ t.Descends span s d)
    ∧ (s.findScope span).Ends t (t.findScope s span) t
  := by
  have hcoherent := ht.coherent
  obtain ⟨r, hr, rfl⟩ := ht
  have hlinked := linked_of_sound hcoherent hr.sound
  refine ⟨findScope_eq_none_iff, ?_, Guarded.ends_findScope hlinked hs span⟩
  intro d
  apply hcoherent.findScope_eq_some_iff hr.sound.pairwise_children

/-- A subprogram with two overlapping blocks, one more block without a range, and a block inside
the second one. -/
def overlappingRun : List Session.Operation :=
  [.onTree (.makeScope .global .subprogram none),
    .onTree (.makeScope ⟨1⟩ .block none),
    .onTree (.makeScope ⟨1⟩ .block none),
    .onTree (.makeScope ⟨1⟩ .block none),
    .onTree (.makeScope ⟨3⟩ .block none),
    .onTree (.addRange ⟨1⟩ ⟨"a.f90", 0, 100⟩),
    .onTree (.addRange ⟨2⟩ ⟨"a.f90", 10, 50⟩),
    .onTree (.addRange ⟨3⟩ ⟨"a.f90", 40, 80⟩),
    .onTree (.addRange ⟨5⟩ ⟨"a.f90", 45, 70⟩)]

/-- In the part that the first two blocks share the older one is found, although there is a
scope further inside the other one. -/
theorem findScope_innermost_overlappingRun :
  let t := ((Session.initial .standard).run overlappingRun).context.tree
  t.Reachable ∧ t.HasScope .global
    ∧ (t.findScope .global ⟨"a.f90", 46, 48⟩ = some ⟨2⟩
      ∧ t.findScope .global ⟨"a.f90", 60, 65⟩ = some ⟨5⟩
      ∧ t.findScope .global ⟨"b.f90", 60, 65⟩ = none)
    ∧ ∀ span, (t.findScope .global span = none ↔ ¬ t.Surrounds span .global)
      ∧ (∀ d, t.findScope .global span = some d ↔ t.Descends span .global d)
      ∧ (ScopeId.global.findScope span).Ends t (t.findScope .global span) t
  := by
  have hvalid : (Session.initial .standard).ValidRun overlappingRun := by decide +kernel
  have ht : ((Session.initial .standard).run overlappingRun).context.tree.Reachable :=
    ⟨_, (Session.Reachable.initial .standard).run hvalid, rfl⟩
  have hglobal := ht.coherent.root
  refine ⟨ht, hglobal, ?_, findScope_innermost ht hglobal⟩
  decide +kernel

end FortranScope.Tree
