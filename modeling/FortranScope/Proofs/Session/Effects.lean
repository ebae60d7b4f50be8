import FortranScope.Proofs.Guarded.Analysis

/-!
# The effects of an analysis

An analysis looks up some of the names of a phrase, from left to right: `Phrase.sought`.  Each of
them that is visible becomes a use of the symbol that it denotes, and beside these uses and the
faults an analysis leaves everything as it was.
-/

namespace FortranScope

namespace Phrase

/-! ## The names that are looked up -/

/-- The name in the suffix of the literal at `span`, unless the suffix is written in digits. -/
def suffixNames (span : Span) : Option String → List Name
  | none => []
  | some suffix =>
    if suffix.toList.all Char.isDigit then [] else [Name.ofSpelling suffix span]

section

variable (visible : String → Prop) [DecidablePred visible]

mutual

/-- The names of a phrase that are looked up, from left to right, where `visible` tells the visible
ones.  A name that is not visible is looked up too.  What stands inside a defined operation is not
looked at, nor are the arguments of a reference whose name is neither visible nor that of an
intrinsic function. -/
def sought : Phrase → List Name
  | integer _ kind span => suffixNames span kind
  | real _ kind span => suffixNames span kind
  | character _ _ => []
  | logical _ _ => []
  | designator name => [name]
  | component base _ => base.sought
  | reference callee args _ =>
    callee :: if callee.text ∈ Intrinsic.all.map Intrinsic.name ∨ visible callee.text
      then args.sought else []
  | parentheses inner _ => inner.sought
  | unary (.intrinsic _) operand _ => operand.sought
  | unary (.defined _) _ _ => []
  | binary (.intrinsic _) left right => left.sought ++ right.sought
  | binary (.defined _) _ _ => []

/-- The names of arguments that are looked up, from left to right. -/
def ArgList.sought : ArgList → List Name
  | .nil => []
  | .cons _ value rest => value.sought ++ rest.sought

end

end

end Phrase

/-! ## Uses -/

namespace Tree

/-- The uses that looking the names up in `s` leads to. -/
def usesOf (t : Tree) (s : ScopeId) (names : List Name) : List Use :=
  names.flatMap fun name => useOf name (t.denoted? s name.text)

variable {t : Tree} {s : ScopeId}

theorem usesOf_cons (t : Tree) (s : ScopeId) (name : Name) (names : List Name) :
  t.usesOf s (name :: names) = useOf name (t.denoted? s name.text) ++ t.usesOf s names
  := List.flatMap_cons

theorem usesOf_append (t : Tree) (s : ScopeId) (names names' : List Name) :
  t.usesOf s (names ++ names') = t.usesOf s names ++ t.usesOf s names'
  := List.flatMap_append

theorem usesOf_singleton (t : Tree) (s : ScopeId) (name : Name) :
  t.usesOf s [name] = useOf name (t.denoted? s name.text)
  := List.flatMap_singleton _ _

/-- A use is one of a listed name, at the symbol that the name denotes. -/
theorem mem_usesOf_iff {names : List Name} {u : Use} :
  u ∈ t.usesOf s names
    ↔ ∃ name ∈ names, t.denoted? s name.text = some u.symbol ∧ name.span = u.span
  := by
  obtain ⟨x, span⟩ := u
  simp only [usesOf, List.mem_flatMap, useOf, List.mem_map, Option.mem_toList, Use.mk.injEq]
  constructor
  · rintro ⟨name, hname, y, hy, rfl, hspan⟩
    exact ⟨name, hname, hy, hspan⟩
  · rintro ⟨name, hname, hx, hspan⟩
    exact ⟨name, hname, x, hx, rfl, hspan⟩

end Tree

namespace Context

variable {c : Context} {s : ScopeId}

/-- The kind of a literal uses the name in its suffix, if there is one. -/
theorem uses_analyzeKind (c : Context) (s : ScopeId) (standard : Int) (span : Span)
    (suffix : Option String) :
  (c.analyzeKind s standard span suffix).uses
    = c.tree.usesOf s (Phrase.suffixNames span suffix)
  := by
  cases suffix with
  | none => rfl
  | some suffix =>
    have huses : (c.analyzeKind s standard span (some suffix)).uses
        = useOf (Name.ofSpelling suffix span) (if suffix.toList.all Char.isDigit then none
          else c.tree.denoted? s (Text.foldCase suffix)) := by
      rw [analyzeKind]
      split
      · split <;> apply List.append_nil
      · apply List.append_nil
    rw [huses, Phrase.suffixNames]
    split
    · rfl
    · rw [Tree.usesOf_singleton, Name.text_ofSpelling]

section

variable [DecidablePred (c.tree.Visible s)]

mutual

/-- The uses of an analysis are those of the names that it looks up. -/
theorem uses_analysis (hc : c.tree.Coherent) (hs : c.tree.HasScope s) :
    (p : Phrase) → (c.analysis s p).uses = c.tree.usesOf s (p.sought (c.tree.Visible s))
  | .integer _ _ _ => c.uses_analyzeKind s _ _ _
  | .real _ _ _ => c.uses_analyzeKind s _ _ _
  | .character _ _ => rfl
  | .logical _ _ => rfl
  | .designator name => by
    rw [analysis, Phrase.sought, Tree.usesOf_singleton]
    split
    · next x hx =>
      rw [hx]
      rfl
    · next hnone =>
      rw [hnone]
      rfl
  | .component base _ => uses_analysis hc hs base
  | .reference callee args _ => by
    simp only [analysis, Phrase.sought, Bool.and_eq_true, isNone_ofName?_iff,
      isNone_denoted?_iff hc hs, Tree.usesOf_cons]
    split
    · next h =>
      have hnone := Option.isNone_iff_eq_none.mp ((isNone_denoted?_iff hc hs).mpr h.1)
      rw [if_neg (not_or.mpr h.symm), hnone]
      rfl
    · next h =>
      rw [if_pos (by tauto), ← uses_analysisOfArgs hc hs args]
      rfl
  | .parentheses inner _ => uses_analysis hc hs inner
  | .unary (.intrinsic _) operand _ => uses_analysis hc hs operand
  | .unary (.defined _) _ _ => rfl
  | .binary (.intrinsic _) left right => by
    rw [Phrase.sought, Tree.usesOf_append, ← uses_analysis hc hs left,
      ← uses_analysis hc hs right]
    rfl
  | .binary (.defined _) _ _ => rfl

theorem uses_analysisOfArgs (hc : c.tree.Coherent) (hs : c.tree.HasScope s) :
    (args : Phrase.ArgList) →
      (c.analysisOfArgs s args).uses = c.tree.usesOf s (args.sought (c.tree.Visible s))
  | .nil => rfl
  | .cons _ value rest => by
    rw [Phrase.ArgList.sought, Tree.usesOf_append, ← uses_analysis hc hs value,
      ← uses_analysisOfArgs hc hs rest]
    rfl

end

end

end Context

/-! ## Occurrences -/

namespace Tree

variable {t : Tree} {s : ScopeId}

/-- Noting uses adds to the occurrences of each symbol those that are its own, in their order. -/
theorem gains_foldl_addOccurrence {uses : List Use} (t : Tree)
    (huses : ∀ u ∈ uses, t.HasSymbol u.symbol) :
  t.Gains (uses.foldl (fun t u => t.addOccurrence u.symbol .used u.span) t) fun x =>
    (uses.filter fun u => u.symbol = x).map fun u => ⟨.used, u.span⟩
  := by
  induction uses generalizing t with
  | nil => apply Gains.refl
  | cons u uses ih =>
    obtain ⟨hu, huses⟩ := List.forall_mem_cons.mp huses
    have hfirst := gains_addOccurrence hu .used u.span
    have hsize := hfirst.size
    have hrest := ih (t.addOccurrence u.symbol .used u.span) fun v hv => by
      rw [HasSymbol, hsize]
      apply huses v hv
    have hgains : (fun x => ((u :: uses).filter fun u => u.symbol = x).map fun u =>
          (⟨.used, u.span⟩ : Occurrence))
        = fun x => occurrenceOf u.symbol .used u.span x
          ++ (uses.filter fun u => u.symbol = x).map fun u => ⟨.used, u.span⟩ := by
      funext x
      rw [List.filter_cons, occurrenceOf]
      by_cases hx : x = u.symbol
      · simp [hx]
      · simp [hx, Ne.symm hx]
    rw [hgains, List.foldl_cons]
    apply hfirst.trans hrest

open scoped Classical in
/-- Of the uses that looking names up leads to, those of a symbol are at the names that denote
it. -/
theorem Coherent.filter_usesOf (h : t.Coherent) (hs : t.HasScope s) (names : List Name)
    (x : SymbolId) :
  ((t.usesOf s names).filter fun u => u.symbol = x).map (fun u => Occurrence.mk .used u.span)
    = (names.filter fun name => t.Denotes s name.text x).map fun name => ⟨.used, name.span⟩
  := by
  induction names with
  | nil => rfl
  | cons name names ih =>
    rw [usesOf_cons, List.filter_append, List.map_append, ih, List.filter_cons]
    simp only [← h.denoted?_eq_some_iff hs]
    cases hdenoted : t.denoted? s name.text with
    | none => simp [useOf]
    | some y =>
      by_cases hy : y = x
      · simp [useOf, hy]
      · simp [useOf, hy]

end Tree

open scoped Classical in
/-- The names that an analysis looks up are what the symbols gain uses at. -/
theorem Context.gains_record_analysis {c : Context} {s : ScopeId} (hc : c.tree.Coherent)
    (hs : c.tree.HasScope s) (p : Phrase) :
  c.tree.Gains (c.record (c.analysis s p)).tree fun x =>
    ((p.sought (c.tree.Visible s)).filter fun name => c.tree.Denotes s name.text x).map
      fun name => ⟨.used, name.span⟩
  := by
  have huses := uses_analysis hc hs p
  have hexist : ∀ u ∈ (c.analysis s p).uses, c.tree.HasSymbol u.symbol := by
    intro u hu
    rw [huses] at hu
    obtain ⟨name, -, hname, -⟩ := Tree.mem_usesOf_iff.mp hu
    obtain ⟨q, -, text, hlocal⟩ := Tree.DenotedIn.exists_local? ⟨name.text, hname⟩
    apply hc.hasSymbol_of_local? hlocal
  have hgains := c.tree.gains_foldl_addOccurrence hexist
  simp only [huses, hc.filter_usesOf hs] at hgains
  rw [record, huses]
  exact hgains

namespace Session

open scoped Classical in
/-- An analysis changes nothing but the diagnostics, which it adds to, and the occurrences of the
symbols: each symbol gains a use at every name that is looked up and denotes it, in the order of the
names.  The expression refers only to symbols that were found in this way.  The same session results
if every use is noted as soon as it is found. -/
theorem analyze_gains_sought {r : Session} (hr : r.Reachable) {s : ScopeId}
    (hs : r.context.tree.HasScope s) (p : Phrase) :
  let t := r.context.tree
  let names := p.sought (t.Visible s)
  let later := (r.analyze s p).2
  later.context.config = r.context.config
    ∧ r.context.log <+: later.context.log
    ∧ t.Gains later.context.tree (fun x =>
      (names.filter fun name => t.Denotes s name.text x).map fun name => ⟨.used, name.span⟩)
    ∧ (∀ e, (r.analyze s p).1 = some e → ∀ x ∈ e.symbols,
      ∃ name ∈ names, t.Denotes s name.text x)
    ∧ (Guarded.analyze s p).Ends r (r.analyze s p).1 later
  := by
  intro t names later
  have hcoherent := hr.coherent
  refine ⟨rfl, List.prefix_append _ _, Context.gains_record_analysis hcoherent hs p, ?_, ?_⟩
  · intro e he x hx
    obtain ⟨u, hu, rfl⟩ := List.mem_map.mp
      (r.context.symbols_subset_used_analysis s p he hx)
    rw [Context.uses_analysis hcoherent hs p] at hu
    obtain ⟨name, hname, hdenoted, -⟩ := Tree.mem_usesOf_iff.mp hu
    exact ⟨name, hname, (hcoherent.denoted?_eq_some_iff hs).mp hdenoted⟩
  · apply Guarded.ends_analyze ⟨Tree.linked_of_sound hcoherent hr.sound, hs⟩

/-- The definition of a derived type has a parameter `k`, and there are an object `k` and an object
`x` around it. -/
def shadowingRun : List Operation :=
  let span : Span := ⟨"a.f90", 0, 1⟩
  [.onTree (.declare .global ⟨"k", span⟩ (.object ⟨none, none, []⟩)),
    .onTree (.declare .global ⟨"x", span⟩ (.object ⟨none, none, []⟩)),
    .onTree (.makeScope .global .derivedType none),
    .onTree (.declare ⟨1⟩ ⟨"k", span⟩ (.object ⟨none, none, []⟩))]

open scoped Classical in
/-- In `f(x) + max(k, 1_k, .op. x, x)` neither the argument of `f`, which is not known, nor that of
`.op.` is looked up. -/
theorem analyze_gains_sought_shadowingRun :
  let r := (initial .standard).run shadowingRun
  let t := r.context.tree
  let s : ScopeId := ⟨1⟩
  let word (start stop : Nat) : Span := ⟨"a.f90", start, stop⟩
  let p := Phrase.binary (.intrinsic .add)
    (.reference ⟨"f", word 0 1⟩ (.ofList [(none, .designator ⟨"x", word 2 3⟩)]) (word 0 4))
    (.reference ⟨"max", word 7 10⟩ (.ofList [(none, .designator ⟨"k", word 11 12⟩),
      (none, .integer 1 (some "k") (word 14 17)),
      (none, .unary (.defined ".op.") (.designator ⟨"x", word 24 25⟩) (word 19 25)),
      (none, .designator ⟨"x", word 27 28⟩)]) (word 7 29))
  let names := p.sought (t.Visible s)
  let later := (r.analyze s p).2
  r.Reachable ∧ t.HasScope s
    ∧ (List.range 3).map (fun x => (later.context.tree.symbol ⟨x⟩).occurrences)
      = [[], [⟨.used, word 27 28⟩], [⟨.used, word 11 12⟩, ⟨.used, word 14 17⟩]]
    ∧ later.context.config = r.context.config
    ∧ r.context.log <+: later.context.log
    ∧ t.Gains later.context.tree (fun x =>
      (names.filter fun name => t.Denotes s name.text x).map fun name => ⟨.used, name.span⟩)
    ∧ (∀ e, (r.analyze s p).1 = some e → ∀ x ∈ e.symbols,
      ∃ name ∈ names, t.Denotes s name.text x)
    ∧ (Guarded.analyze s p).Ends r (r.analyze s p).1 later
  := by
  intro r t s word p names later
  have hvalid : (initial .standard).ValidRun shadowingRun := by decide +kernel
  have hr : r.Reachable := (Reachable.initial .standard).run hvalid
  have hs : t.HasScope s := by decide +kernel
  have hoccurrences : (List.range 3).map (fun x => (later.context.tree.symbol ⟨x⟩).occurrences)
      = [[], [⟨.used, word 27 28⟩], [⟨.used, word 11 12⟩, ⟨.used, word 14 17⟩]] := by
    decide +kernel
  exact ⟨hr, hs, hoccurrences, analyze_gains_sought hr hs p⟩

end Session

end FortranScope
