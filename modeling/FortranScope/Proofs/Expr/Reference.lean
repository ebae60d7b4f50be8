import FortranScope.Proofs.Resolution.Settled
import FortranScope.Proofs.Tree.Association

/-!
# What expressions refer to

The symbols that an analysed expression refers to are among those whose uses the analysis
notes, and these are symbols that some scope gives a name to.  Folding drops references and
makes no new ones.  So whatever a resolution settles refers to symbols in tables.
-/

namespace FortranScope

/-! ## Folding -/

theorem append_subset_append {α : Type} {as as' bs bs' : List α} (has : as ⊆ as')
    (hbs : bs ⊆ bs') :
  as ++ bs ⊆ as' ++ bs'
  := List.append_subset.mpr ⟨List.subset_append_of_subset_left _ has,
    List.subset_append_of_subset_right _ hbs⟩

namespace Expr

/-- Replacing an operation by its value refers to no new symbol. -/
theorem symbols_settle_subset (e : Expr) (warnings : List Cause) (outcome : Evaluation) :
  (e.settle warnings outcome).1.symbols ⊆ e.symbols
  := by
  cases outcome with
  | value c => apply List.nil_subset
  | stuck => apply List.Subset.refl
  | failed cause => apply List.Subset.refl

/-- Parentheses refer to nothing themselves. -/
theorem symbols_enclose (e : Expr) :
  e.enclose.symbols = e.symbols
  := by
  cases e <;> rfl

mutual

/-- Folding refers to no new symbol. -/
theorem symbols_fold_subset (config : Config) :
    (e : Expr) → (e.fold config).1.symbols ⊆ e.symbols
  | constant _ => List.Subset.refl _
  | designator _ _ => List.Subset.refl _
  | component base _ => base.symbols_fold_subset config
  | reference name symbol args => by
    apply List.Subset.trans (symbols_settle_subset _ _ _)
    apply append_subset_append
    · apply List.Subset.refl
    · apply args.symbols_fold_subset config
  | parentheses inner => by
    rw [fold, symbols_enclose]
    apply inner.symbols_fold_subset config
  | unary operator operand => by
    apply List.Subset.trans (symbols_settle_subset _ _ _)
    apply operand.symbols_fold_subset config
  | binary operator left right => by
    apply List.Subset.trans (symbols_settle_subset _ _ _)
    apply append_subset_append
    · apply left.symbols_fold_subset config
    · apply right.symbols_fold_subset config

theorem Args.symbols_fold_subset (config : Config) :
    (args : Args) → (args.fold config).1.symbols ⊆ args.symbols
  | .nil => List.Subset.refl _
  | .cons _ value rest => by
    apply append_subset_append
    · apply value.symbols_fold_subset config
    · apply rest.symbols_fold_subset config

end

end Expr

/-! ## Analysis -/

namespace Analysis

variable {α β γ : Type}

/-- A joint analysis gives a value only if both parts do. -/
theorem join_eq_some {f : α → β → γ} {a : Analysis α} {b : Analysis β} {z : γ}
    (h : (a.join f b).result = some z) :
  ∃ x y, a.result = some x ∧ b.result = some y ∧ f x y = z
  := by
  obtain ⟨x, hx, hy⟩ := Option.bind_eq_some_iff.mp h
  obtain ⟨y, hy, hz⟩ := Option.map_eq_some_iff.mp hy
  exact ⟨x, y, hx, hy, hz⟩

/-- The symbols that were found by name. -/
def used (a : Analysis α) : List SymbolId := a.uses.map Use.symbol

theorem used_map (f : α → β) (a : Analysis α) :
  (a.map f).used = a.used
  := rfl

theorem used_join (f : α → β → γ) (a : Analysis α) (b : Analysis β) :
  (a.join f b).used = a.used ++ b.used
  := List.map_append

/-- A name that denotes something is used before what follows it. -/
theorem used_after (a : Analysis α) (name : Name) (symbol : Option SymbolId) :
  (a.after (useOf name symbol)).used = symbol.toList ++ a.used
  := by
  cases symbol <;> rfl

end Analysis

namespace Context

variable (c : Context) (s : ScopeId)

/-- A designator refers to its symbol, or to nothing if it is replaced by a constant. -/
theorem symbols_designated_subset (t : Tree) (name : String) (x : SymbolId) :
  (t.designated name x).symbols ⊆ [x]
  := by
  rw [Tree.designated]
  split
  · apply List.nil_subset
  · apply List.Subset.refl

mutual

/-- Only what was found by name is referred to. -/
theorem symbols_subset_used_analysis :
    (p : Phrase) → ∀ {e}, (c.analysis s p).result = some e → e.symbols ⊆ (c.analysis s p).used
  | .integer value kind span, e, h => by
    obtain ⟨k, -, rfl⟩ := Option.map_eq_some_iff.mp h
    apply List.nil_subset
  | .real digits kind span, e, h => by
    obtain ⟨k, -, rfl⟩ := Option.map_eq_some_iff.mp h
    apply List.nil_subset
  | .character value span, e, h => by
    cases h
    apply List.nil_subset
  | .logical value span, e, h => by
    cases h
    apply List.nil_subset
  | .designator name, e, h => by
    rw [Context.analysis] at h ⊢
    split at h
    · next x _ =>
      cases h
      rw [Analysis.used_after]
      apply List.subset_append_of_subset_left
      -- folding to a constant can only take the symbol away
      apply symbols_designated_subset
    · cases h
  | .component base name, e, h => by
    obtain ⟨b, hb, rfl⟩ := Option.map_eq_some_iff.mp h
    apply symbols_subset_used_analysis base hb
  | .reference callee args span, e, h => by
    rw [Context.analysis] at h ⊢
    split at h
    · cases h
    · next hknown =>
      obtain ⟨a, ha, rfl⟩ := Option.map_eq_some_iff.mp h
      simp only [if_neg hknown, Analysis.used_after, Analysis.used_map]
      apply append_subset_append
      · apply List.Subset.refl
      · apply symbols_subset_used_analysisOfArgs args ha
  | .parentheses inner span, e, h => by
    obtain ⟨i, hi, rfl⟩ := Option.map_eq_some_iff.mp h
    apply symbols_subset_used_analysis inner hi
  | .unary (.intrinsic operator) operand span, e, h => by
    obtain ⟨o, ho, rfl⟩ := Option.map_eq_some_iff.mp h
    apply symbols_subset_used_analysis operand ho
  | .unary (.defined word) operand span, e, h => by
    cases h
  | .binary (.intrinsic operator) left right, e, h => by
    obtain ⟨l, r, hl, hr, rfl⟩ := Analysis.join_eq_some h
    rw [Context.analysis, Analysis.used_join]
    apply append_subset_append
    · apply symbols_subset_used_analysis left hl
    · apply symbols_subset_used_analysis right hr
  | .binary (.defined word) left right, e, h => by
    cases h

theorem symbols_subset_used_analysisOfArgs :
    (args : Phrase.ArgList) → ∀ {a}, (c.analysisOfArgs s args).result = some a →
      a.symbols ⊆ (c.analysisOfArgs s args).used
  | .nil, a, h => by
    cases h
    apply List.nil_subset
  | .cons keyword value rest, a, h => by
    obtain ⟨v, r, hv, hr, rfl⟩ := Analysis.join_eq_some h
    rw [Context.analysisOfArgs, Analysis.used_join]
    apply append_subset_append
    · apply symbols_subset_used_analysis value hv
    · apply symbols_subset_used_analysisOfArgs rest hr

end

end Context

/-! ## Tables -/

/-- What a scope declares is in its table. -/
theorem Tree.mem_values_of_local? {t : Tree} {s : ScopeId} {text : String} {x : SymbolId}
    (h : t.local? s text = some x) :
  x ∈ (t.scope s).table.values
  := by
  obtain ⟨before, after, hentries, -⟩ := List.lookup_eq_some_iff.mp h
  rw [Table.values, hentries]
  simp

/-- The symbol `x` is in the table of the scope `s` or of one around it. -/
def Tree.Sees (t : Tree) (s : ScopeId) (x : SymbolId) : Prop :=
  ∃ q ∈ t.hosts s, x ∈ (t.scope q).table.values

/-- Some name denotes the symbol `x` in `s`. -/
def Tree.DenotedIn (t : Tree) (s : ScopeId) (x : SymbolId) : Prop :=
  ∃ text, t.denoted? s text = some x

/-- What is visible from a scope is declared in it or in one around it. -/
theorem Tree.exists_local?_of_visible? {t : Tree} {s : ScopeId} {text : String} {x : SymbolId}
    (h : t.visible? s text = some x) :
  ∃ q ∈ t.hosts s, t.local? q text = some x
  := by
  obtain ⟨inner, q, outer, hlevels, hq, -⟩ := associated?_eq_some_iff.mp h
  have hmem : q ∈ t.levels (t.hosts s) := by
    rw [hlevels]
    apply List.mem_append_right _ List.mem_cons_self
  exact ⟨q, (List.mem_filter.mp hmem).1, hq⟩

/-- What is denoted is in a table of the scope or of one around it. -/
theorem Tree.DenotedIn.exists_local? {t : Tree} {s : ScopeId} {x : SymbolId} (h : t.DenotedIn s x) :
  ∃ q ∈ t.hosts s, ∃ text, t.local? q text = some x
  := by
  obtain ⟨text, h⟩ := h
  have hvisible (h : t.visible? s text = some x) :
      ∃ q ∈ t.hosts s, ∃ text, t.local? q text = some x := by
    obtain ⟨q, hq, hx⟩ := exists_local?_of_visible? h
    exact ⟨q, hq, text, hx⟩
  rw [denoted?] at h
  split at h
  · split at h
    · next hlocal =>
      cases h
      exact ⟨s, t.self_mem_hosts s, text, hlocal⟩
    · apply hvisible h
  · apply hvisible h

/-- What a name in `s` denotes is seen from `s`. -/
theorem Tree.DenotedIn.sees {t : Tree} {s : ScopeId} {x : SymbolId} (h : t.DenotedIn s x) :
  t.Sees s x
  := by
  obtain ⟨q, hq, text, hx⟩ := h.exists_local?
  exact ⟨q, hq, mem_values_of_local? hx⟩

/-- What a name in `s` denotes has an entry in a table. -/
theorem Tree.DenotedIn.tabled {t : Tree} {s : ScopeId} {x : SymbolId} (h : t.DenotedIn s x) :
  t.Tabled x
  := by
  obtain ⟨q, -, hx⟩ := h.sees
  exact ⟨q, hasScope_of_mem_values hx, hx⟩

namespace Context

variable (c : Context) (s : ScopeId)

/-- What a name is found to denote is denoted in `s`. -/
theorem denotedIn_of_mem_toList {text : String} {x : SymbolId}
    (hx : x ∈ (c.tree.denoted? s text).toList) :
  c.tree.DenotedIn s x
  := ⟨text, Option.mem_toList.mp hx⟩

/-- The name in a suffix is looked up from `s` as any other. -/
theorem denotedIn_of_mem_used_analyzeKind (standard : Int) (span : Span) (suffix : Option String)
    {x : SymbolId} (hx : x ∈ (c.analyzeKind s standard span suffix).used) :
  c.tree.DenotedIn s x
  := by
  cases suffix with
  | none => cases hx
  | some suffix =>
    have hsymbol : x ∈ (if suffix.toList.all Char.isDigit then none
        else c.tree.denoted? s (Name.ofSpelling suffix span).text).toList := by
      rw [analyzeKind] at hx
      split at hx
      · split at hx
        all_goals
          rw [Analysis.used_after] at hx
          simpa [Analysis.used, Analysis.pure, Analysis.fault] using hx
      · rw [Analysis.used_after] at hx
        simpa [Analysis.used, Analysis.fault] using hx
    split at hsymbol
    · cases hsymbol
    · apply c.denotedIn_of_mem_toList s hsymbol

mutual

/-- What is found by name is denoted by it. -/
theorem denotedIn_of_mem_used_analysis :
    (p : Phrase) → ∀ {x}, x ∈ (c.analysis s p).used → c.tree.DenotedIn s x
  | .integer value kind span, x, hx => c.denotedIn_of_mem_used_analyzeKind s _ _ _ hx
  | .real digits kind span, x, hx => c.denotedIn_of_mem_used_analyzeKind s _ _ _ hx
  | .character value span, x, hx => by cases hx
  | .logical value span, x, hx => by cases hx
  | .designator name, x, hx => by
    rw [Context.analysis] at hx
    split at hx
    · next y hy =>
      rw [Analysis.used_after] at hx
      obtain rfl : x = y := by simpa [Analysis.used, Analysis.pure] using hx
      exact ⟨name.text, hy⟩
    · cases hx
  | .component base name, x, hx => denotedIn_of_mem_used_analysis base hx
  | .reference callee args span, x, hx => by
    rw [Context.analysis] at hx
    split at hx
    · cases hx
    · rw [Analysis.used_after, Analysis.used_map] at hx
      rcases List.mem_append.mp hx with hcallee | hargs
      · apply c.denotedIn_of_mem_toList s hcallee
      · apply denotedIn_of_mem_used_analysisOfArgs args hargs
  | .parentheses inner span, x, hx => denotedIn_of_mem_used_analysis inner hx
  | .unary (.intrinsic operator) operand span, x, hx => denotedIn_of_mem_used_analysis operand hx
  | .unary (.defined word) operand span, x, hx => by cases hx
  | .binary (.intrinsic operator) left right, x, hx => by
    rw [Context.analysis, Analysis.used_join] at hx
    rcases List.mem_append.mp hx with hleft | hright
    · apply denotedIn_of_mem_used_analysis left hleft
    · apply denotedIn_of_mem_used_analysis right hright
  | .binary (.defined word) left right, x, hx => by cases hx

theorem denotedIn_of_mem_used_analysisOfArgs :
    (args : Phrase.ArgList) → ∀ {x}, x ∈ (c.analysisOfArgs s args).used → c.tree.DenotedIn s x
  | .nil, x, hx => by cases hx
  | .cons keyword value rest, x, hx => by
    rw [Context.analysisOfArgs, Analysis.used_join] at hx
    rcases List.mem_append.mp hx with hvalue | hrest
    · apply denotedIn_of_mem_used_analysis value hvalue
    · apply denotedIn_of_mem_used_analysisOfArgs rest hrest

end

end Context

end FortranScope
