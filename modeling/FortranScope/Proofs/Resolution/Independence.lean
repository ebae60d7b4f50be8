import FortranScope.Proofs.Expr.Faults
import FortranScope.Proofs.Expr.Reference
import FortranScope.Proofs.Resolution.Parallel
import FortranScope.Proofs.Tree.Reordering

/-!
# Scopes apart are resolved independently

What the resolution of a scope adds, and what it leaves in the cells of the scope, depends only on
the cells that the scope consults: its own ones and the declarations in scopes around it.  Of two
scopes apart neither consults a cell of the other, if they share no derived type spec.
-/

namespace FortranScope

/-! ## What settling adds -/

/-- The session `r'` is `r` with these messages and occurrences behind those that it has. -/
structure Session.Adds (r r' : Session) (messages : Log) (gained : SymbolId → List Occurrence) :
    Prop where
  config : r'.context.config = r.context.config
  log : r'.context.log = r.context.log ++ messages
  tree : r.context.tree.Gains r'.context.tree gained

namespace Session

variable {r q : Session} {s : ScopeId}

/-- A session is itself with nothing added. -/
theorem adds_nothing (r : Session) :
  r.Adds r [] fun _ => []
  := by
  constructor
  · rfl
  · rw [List.append_nil]
  · apply Tree.Gains.refl

/-- Sessions that agree in `s` settle an expression alike and add the same. -/
theorem exists_adds_settle (h : Context.Agrees s r.context q.context)
    (hsize : q.context.tree.symbols.size = r.context.tree.symbols.size) (d : Deferred) :
  (r.settle s d).1 = (q.settle s d).1
    ∧ ∃ messages gained, r.Adds (r.settle s d).2 messages gained
      ∧ q.Adds (q.settle s d).2 messages gained
  := by
  cases d with
  | empty | failed | resolved => exact ⟨rfl, [], _, adds_nothing r, adds_nothing q⟩
  | pending phrase =>
    obtain ⟨gained, hgained⟩ := Context.exists_gains_record r.context.tree.symbols.size
      (r.context.analysis s phrase)
    have hr := hgained r.context rfl
    have hq := hgained q.context hsize
    simp only [settle, analyze, h.analysis phrase]
    cases (r.context.analysis s phrase).result with
    | none => exact ⟨rfl, _, gained, ⟨rfl, rfl, hr⟩, ⟨rfl, rfl, hq⟩⟩
    | some e =>
      -- the warnings point at the phrase, wherever the last one was
      have hconfig : (q.context.record (r.context.analysis s phrase)).config
          = (r.context.record (r.context.analysis s phrase)).config := h.config
      simp only [fold, hconfig]
      exact ⟨trivial, _, gained, ⟨rfl, List.append_assoc _ _ _, hr⟩,
        ⟨h.config.symm, List.append_assoc _ _ _, hq⟩⟩

end Session

/-! ## Trees that agree on cells -/

namespace Tree

/-- The trees have the same outline and the same expressions in the cells `A`. -/
structure AgreesOn (A : Cell → Prop) (t t' : Tree) : Prop where
  outline : t'.outline = t.outline
  cell : ∀ c, A c → t'.cell? c = t.cell? c

variable {A : Cell → Prop} {t t' t'' u u' : Tree}

namespace AgreesOn

theorem trans (h : t.AgreesOn A t') (h' : t'.AgreesOn A t'') :
  t.AgreesOn A t''
  := by
  constructor
  · rw [h'.outline, h.outline]
  · intro c hc
    rw [h'.cell c hc, h.cell c hc]

theorem mono {B : Cell → Prop} (hBA : ∀ c, B c → A c) (h : t.AgreesOn A t') :
  t.AgreesOn B t'
  := by
  constructor
  · exact h.outline
  · intro c hc
    apply h.cell c (hBA c hc)

variable (h : t.AgreesOn A t')

include h

/-- If all places of a declaration are agreed on, so is the declaration. -/
theorem details {x : SymbolId} (hx : ∀ place, A (.declaration x place)) :
  (t'.symbol x).details = (t.symbol x).details
  := by
  apply Details.eq_of_outline_eq (outline_details_eq_of_outline_eq h.outline x)
  intro place
  apply h.cell _ (hx place)

/-- If all positions of a spec are agreed on, so are its parameter values. -/
theorem params {d : SpecId} (hd : ∀ position, A (.parameter d position)) :
  (t'.spec d).params = (t.spec d).params
  := by
  apply congrArg DerivedTypeSpec.params
  apply DerivedTypeSpec.eq_of_outline_eq
  · rw [← spec_outline, ← spec_outline, h.outline]
  · intro position
    apply h.cell _ (hd position)

/-- If a declaration is agreed on, so is the constant that it names. -/
theorem namedConstant? {x : SymbolId} (hx : ∀ place, A (.declaration x place)) :
  (t'.symbol x).namedConstant? = (t.symbol x).namedConstant?
  := by
  have hattr : (t'.symbol x).hasAttr .parameter = (t.symbol x).hasAttr .parameter := by
    rw [Symbol.hasAttr, Symbol.hasAttr, attrs_eq_of_outline_eq h.outline]
  rw [Symbol.namedConstant?, Symbol.namedConstant?, h.details hx, hattr]

/-- Trees that gained the same occurrences agree where they did before. -/
theorem of_gains {gained : SymbolId → List Occurrence} (hu : t.Gains u gained)
    (hu' : t'.Gains u' gained) :
  u.AgreesOn A u'
  := by
  constructor
  · rw [hu'.outline_eq, h.outline, hu.outline_eq]
  · intro c hc
    rw [hu'.cell?, h.cell c hc, hu.cell?]

/-- Trees that agree still do so after the same details were set in both. -/
theorem setDetails (x : SymbolId) (D : Details) :
  (t.setDetails x D).AgreesOn A (t'.setDetails x D)
  := by
  constructor
  · rw [outline_setDetails, h.outline, outline_setDetails]
  · intro c hc
    cases c with
    | declaration y place =>
      simp only [cell?, symbol_setDetails, hasSymbol_iff_of_outline_eq h.outline]
      split
      · rfl
      · apply h.cell _ hc
    | parameter d position => apply h.cell _ hc

/-- Trees that agree still do so after the same parameter values were set in both. -/
theorem setParams (d : SpecId) (params : List (Option String × Extent)) :
  (t.setParams d params).AgreesOn A (t'.setParams d params)
  := by
  constructor
  · rw [outline_setParams, h.outline, outline_setParams]
  · intro c hc
    cases c with
    | declaration y place => apply h.cell _ hc
    | parameter e position =>
      simp only [cell?, spec_setParams, hasSpec_iff_of_outline_eq h.outline]
      split
      · rfl
      · apply h.cell _ hc

end AgreesOn

/-! ## Cells of a scope -/

/-- The cell belongs to a symbol in the table of `s`. -/
def Owns (t : Tree) (s : ScopeId) (c : Cell) : Prop :=
  ∃ x ∈ (t.scope s).table.values, t.Belongs x c

/-- The resolution of `s` depends on the cell: it is in a declaration of `s` or of a scope around
it, or in a derived type spec that a symbol in the table of `s` is declared with. -/
def Consults (t : Tree) (s : ScopeId) : Cell → Prop
  | .declaration x _ => t.Sees s x
  | .parameter d _ => ∃ x ∈ (t.scope s).table.values, (t.symbol x).details.spec? = some d

/-- What a scope resolves is among what its resolution depends on. -/
theorem Owns.consults {s : ScopeId} {c : Cell} (h : t.Owns s c) :
  t.Consults s c
  := by
  obtain ⟨x, hx, hc⟩ := h
  cases c with
  | declaration y place =>
    obtain rfl : y = x := hc
    exact ⟨s, t.self_mem_hosts s, hx⟩
  | parameter d position => exact ⟨x, hx, hc⟩

/-- Neither of two different scopes encloses the other. -/
def Apart (t : Tree) (s s' : ScopeId) : Prop :=
  s ≠ s' ∧ ¬ t.Encloses s s' ∧ ¬ t.Encloses s' s

theorem Apart.symm {s s' : ScopeId} (h : t.Apart s s') :
  t.Apart s' s
  := ⟨h.1.symm, h.2.2, h.2.1⟩

/-- No derived type spec is the declared type of symbols in the tables of scopes apart. -/
def SpecsNested (t : Tree) : Prop :=
  ∀ x y d, t.Tabled x → t.Tabled y → (t.symbol x).details.spec? = some d →
    (t.symbol y).details.spec? = some d → ¬ t.Apart (t.symbol x).owner (t.symbol y).owner

/-- The scopes of the tree can be resolved independently, as far as they are apart. -/
structure Separable (t : Tree) : Prop where
  coherent : t.Coherent
  nested : t.SpecsNested

/-- Of scopes apart neither consults a cell of the other. -/
theorem Separable.not_owns (h : t.Separable) {s s' : ScopeId} (hapart : t.Apart s s') {c : Cell}
    (hc : t.Consults s c) :
  ¬ t.Owns s' c
  := by
  rintro ⟨y, hy, hcy⟩
  have howner := h.coherent.owner hy
  cases c with
  | declaration x place =>
    obtain rfl : x = y := hcy
    obtain ⟨q, hq, hx⟩ := hc
    obtain rfl : q = s' := (h.coherent.owner hx).symm.trans howner
    rcases eq_or_encloses_of_mem_hosts hq with rfl | hencloses
    · exact hapart.1 rfl
    · exact hapart.2.2 hencloses
  | parameter d position =>
    obtain ⟨x, hx, hd⟩ := hc
    apply h.nested x y d ⟨s, hasScope_of_mem_values hx, hx⟩ ⟨s', hasScope_of_mem_values hy, hy⟩ hd
      hcy
    rw [h.coherent.owner hx, howner]
    exact hapart

/-- Which symbols a scope sees is read off the scopes. -/
theorem sees_iff_of_scopes_eq (h : t'.scopes = t.scopes) (s : ScopeId) (x : SymbolId) :
  t'.Sees s x ↔ t.Sees s x
  := by
  have hscope (q : ScopeId) : t'.scope q = t.scope q := by
    rw [scope, h]
    rfl
  have hhosts : t'.hosts s = t.hosts s := by
    apply hosts_congr
    intro q
    rw [hscope]
  simp only [Sees, hhosts, hscope]

section

variable (h : t'.outline = t.outline)

include h

/-- Which scopes enclose which is read off the outline. -/
theorem encloses_iff_of_outline_eq (q s : ScopeId) :
  t'.Encloses q s ↔ t.Encloses q s
  := by
  simp only [Encloses, scope_eq_of_outline_eq h]

/-- Which scopes are apart is read off the outline. -/
theorem apart_iff_of_outline_eq (s s' : ScopeId) :
  t'.Apart s s' ↔ t.Apart s s'
  := by
  simp only [Apart, encloses_iff_of_outline_eq h]

/-- Which cells a scope owns is read off the outline. -/
theorem owns_iff_of_outline_eq (s : ScopeId) (c : Cell) :
  t'.Owns s c ↔ t.Owns s c
  := by
  simp only [Owns, scope_eq_of_outline_eq h, belongs_iff_of_outline_eq h]

/-- Whether the scopes can be resolved independently is read off the outline. -/
theorem Separable.of_outline_eq (ht : t.Separable) :
  t'.Separable
  := by
  constructor
  · exact ht.coherent.of_alike (alike_of_outline_eq h)
  · intro x y d hx hy hdx hdy
    have htabled (x : SymbolId) (hx : t'.Tabled x) : t.Tabled x := by
      obtain ⟨s, -, hs⟩ := hx
      rw [scope_eq_of_outline_eq h] at hs
      exact ⟨s, hasScope_of_mem_values hs, hs⟩
    rw [Details.spec?_eq_of_outline_eq (outline_details_eq_of_outline_eq h _)] at hdx hdy
    rw [apart_iff_of_outline_eq h, owner_eq_of_outline_eq h, owner_eq_of_outline_eq h]
    exact ht.nested x y d (htabled x hx) (htabled y hy) hdx hdy

end

end Tree

/-! ## What a scope adds -/

namespace Stats

/-- The count of the expressions in either count. -/
def plus (stats stats' : Stats) : Stats :=
  ⟨stats.resolved + stats'.resolved, stats.errors + stats'.errors⟩

theorem plus_assoc (a b c : Stats) :
  (a.plus b).plus c = a.plus (b.plus c)
  := congrArg₂ Stats.mk (Nat.add_assoc _ _ _) (Nat.add_assoc _ _ _)

theorem plus_comm (a b : Stats) :
  a.plus b = b.plus a
  := congrArg₂ Stats.mk (Nat.add_comm _ _) (Nat.add_comm _ _)

theorem add_eq_plus (stats : Stats) (d : Deferred) :
  stats.add d = stats.plus (Stats.zero.add d)
  := by
  cases d <;> rfl

end Stats

/-- Messages, occurrences of symbols, and a count of expressions. -/
structure Increment where
  messages : Log
  occurrences : SymbolId → List Occurrence
  stats : Stats

namespace Increment

/-- Nothing. -/
def zero : Increment := ⟨[], fun _ => [], .zero⟩

/-- What `δ` adds, and then what `δ'` adds. -/
def append (δ δ' : Increment) : Increment where
  messages := δ.messages ++ δ'.messages
  occurrences x := δ.occurrences x ++ δ'.occurrences x
  stats := δ.stats.plus δ'.stats

end Increment

namespace Pass

/-- The pass `q` has, behind what `p` has, what `δ` adds. -/
structure Adds (p q : Pass) (δ : Increment) : Prop where
  log : q.session.context.log = p.session.context.log ++ δ.messages
  occurrences : ∀ x,
    (q.tree.symbol x).occurrences = (p.tree.symbol x).occurrences ++ δ.occurrences x
  stats : q.stats = p.stats.plus δ.stats

/-- A pass has itself with nothing added. -/
theorem adds_zero (p : Pass) :
  p.Adds p .zero
  := by
  constructor
  · rw [Increment.zero, List.append_nil]
  · intro x
    rw [Increment.zero, List.append_nil]
  · rfl

theorem Adds.trans {p q r : Pass} {δ δ' : Increment} (h : p.Adds q δ) (h' : q.Adds r δ') :
  p.Adds r (δ.append δ')
  := by
  constructor
  · rw [h'.log, h.log, List.append_assoc]
    rfl
  · intro x
    rw [h'.occurrences, h.occurrences, List.append_assoc]
    rfl
  · rw [h'.stats, h.stats, Stats.plus_assoc]
    rfl

/-- What is settled is counted besides. -/
theorem adds_of_session_adds {p : Pass} {r : Session} {messages : Log}
    {gained : SymbolId → List Occurrence} (h : p.session.Adds r messages gained) {d : Deferred} :
  p.Adds ⟨r, p.stats.add d⟩ ⟨messages, gained, Stats.zero.add d⟩
  := by
  constructor
  · exact h.log
  · intro x
    change (r.context.tree.symbol x).occurrences = _
    rw [h.tree.symbol]
    rfl
  · apply Stats.add_eq_plus

/-- Resolving a type keeps the outline. -/
theorem outline_resolveType (p : Pass) (x : SymbolId) :
  (p.resolveType x).tree.outline = p.tree.outline
  := by
  have htype : p.Settles (fun _ => True) (p.resolveType x) := by
    apply settles_resolveType
    intro d position hd
    trivial
  exact htype.outline

/-- `p` and `q` went on from `p₀` and `q₀`, agree on the cells `A`, and added the same. -/
structure Alongside (p₀ q₀ : Pass) (A : Cell → Prop) (p q : Pass) : Prop where
  config : q.session.context.config = p.session.context.config
  scopes : p.tree.scopes = p₀.tree.scopes
  tree : p.tree.AgreesOn A q.tree
  added : ∃ δ, p₀.Adds p δ ∧ q₀.Adds q δ

namespace Alongside

variable {p₀ q₀ p q : Pass} {A : Cell → Prop} {s : ScopeId}

/-- Passes alongside each other stay so when the same details are set in both. -/
theorem withDetails (h : Alongside p₀ q₀ A p q) (x : SymbolId) (D : Details) :
  Alongside p₀ q₀ A (p.withDetails x D) (q.withDetails x D)
  := by
  have hoccurrences (p : Pass) (y : SymbolId) :
      ((p.withDetails x D).tree.symbol y).occurrences = (p.tree.symbol y).occurrences := by
    apply Tree.field_modifySymbol Symbol.occurrences
    intro z
    rfl
  obtain ⟨δ, hp, hq⟩ := h.added
  constructor
  · exact h.config
  · exact h.scopes
  · apply h.tree.setDetails
  · refine ⟨δ, ⟨hp.log, ?_, hp.stats⟩, ⟨hq.log, ?_, hq.stats⟩⟩
    · intro y
      rw [hoccurrences, hp.occurrences]
    · intro y
      rw [hoccurrences, hq.occurrences]

/-- Passes alongside each other stay so when the same parameter values are set in both. -/
theorem withParams (h : Alongside p₀ q₀ A p q) (d : SpecId) (params : List (Option String × Extent)) :
  Alongside p₀ q₀ A (p.withParams d params) (q.withParams d params)
  := by
  obtain ⟨δ, hp, hq⟩ := h.added
  constructor
  · exact h.config
  · exact h.scopes
  · apply h.tree.setParams
  · exact ⟨δ, ⟨hp.log, hp.occurrences, hp.stats⟩, ⟨hq.log, hq.occurrences, hq.stats⟩⟩

/-- What names denote in `s`, and which constants they name, is the same in both passes, if they
agree on what `s` consults. -/
theorem agrees (h : Alongside p₀ q₀ A p q) (hA : ∀ c, p₀.tree.Consults s c → A c) :
  Context.Agrees s p.session.context q.session.context
  := by
  constructor
  · exact h.config
  · apply Tree.denoted?_eq_of_outline_eq h.tree.outline
  · intro text x hx
    apply h.tree.namedConstant?
    intro place
    apply hA
    apply (Tree.sees_iff_of_scopes_eq h.scopes s x).mp
    apply Tree.DenotedIn.sees ⟨text, hx⟩

/-- Passes that go on side by side settle an expression in `s` alike, and go on so. -/
theorem parallel_settle (hA : ∀ c, p₀.tree.Consults s c → A c) :
  Parallel (Alongside p₀ q₀ A) s
  := by
  apply parallel_of_unresolved
  intro p q d h
  have hsize := Tree.size_symbols_eq_of_outline_eq h.tree.outline
  obtain ⟨heq, messages, gained, hp, hq⟩ := Session.exists_adds_settle (h.agrees hA) hsize d
  obtain ⟨δ, hstart, hstart'⟩ := h.added
  rw [← heq]
  refine ⟨rfl, ?_, ?_, ?_, ?_⟩
  · exact hq.config.trans (h.config.trans hp.config.symm)
  · exact hp.tree.scopes.trans h.scopes
  · exact h.tree.of_gains hp.tree hq.tree
  · exact ⟨δ.append ⟨messages, gained, Stats.zero.add (p.session.settle s d).1⟩,
      hstart.trans (adds_of_session_adds hp), hstart'.trans (adds_of_session_adds hq)⟩

/-- Passes alongside each other stay so when both resolve a symbol of the scope. -/
theorem resolveSymbol (hA : ∀ c, p₀.tree.Consults s c → A c) (h : Alongside p₀ q₀ A p q)
    (houtline : p.tree.outline = p₀.tree.outline) {x : SymbolId}
    (hx : x ∈ (p₀.tree.scope s).table.values) (howner : (p₀.tree.symbol x).owner = s) :
  Alongside p₀ q₀ A (p.resolveSymbol x) (q.resolveSymbol x)
  := by
  have hparallel : Parallel (Alongside p₀ q₀ A) s := parallel_settle hA
  have hdetails (place : Place) : A (.declaration x place) := by
    apply hA
    exact ⟨s, Tree.self_mem_hosts _ s, hx⟩
  have howner (p : Pass) (houtline : p.tree.outline = p₀.tree.outline) :
      (p.tree.symbol x).owner = s := by
    rw [Tree.owner_eq_of_outline_eq houtline, howner]
  have htype : Alongside p₀ q₀ A (p.resolveType x) (q.resolveType x) := by
    apply hparallel.resolveType h (howner p houtline)
    · exact howner q (h.tree.outline.trans houtline)
    · rw [h.tree.details hdetails]
    · intro d hd
      rw [h.tree.params]
      intro position
      apply hA
      rw [Details.spec?_eq_of_outline_eq (Tree.outline_details_eq_of_outline_eq houtline x)] at hd
      exact ⟨x, hx, hd⟩
    · intro p q d params h
      exact h.withParams d params
  have hp : (p.resolveType x).tree.outline = p₀.tree.outline := by
    rw [outline_resolveType, houtline]
  apply hparallel.resolveDetails htype (howner _ hp)
  · exact howner _ (htype.tree.outline.trans hp)
  · rw [htype.tree.details hdetails]
  · intro p q D h
    exact h.withDetails x D

end Alongside

theorem settles_resolveScope (p : Pass) (s : ScopeId) :
  p.Settles (p.tree.Owns s) (p.resolveScope s)
  := p.settles_foldl _

theorem outline_resolveScope (p : Pass) (s : ScopeId) :
  (p.resolveScope s).tree.outline = p.tree.outline
  := (p.settles_resolveScope s).outline

/-- Only the cells of a scope change when it is resolved. -/
theorem agreesOn_resolveScope (p : Pass) (s : ScopeId) :
  p.tree.AgreesOn (fun c => ¬ p.tree.Owns s c) (p.resolveScope s).tree
  := by
  constructor
  · apply outline_resolveScope
  · intro c hc
    apply (p.settles_resolveScope s).cell?_of_not hc

/-- Passes that agree on what a scope consults add the same when it is resolved, and leave the
same in the cells on which they agree. -/
theorem exists_adds_resolveScope {p q : Pass} {A : Cell → Prop} {s : ScopeId}
    (hp : p.tree.Coherent) (hconfig : q.session.context.config = p.session.context.config)
    (h : p.tree.AgreesOn A q.tree) (hA : ∀ c, p.tree.Consults s c → A c) :
  (p.resolveScope s).tree.AgreesOn A (q.resolveScope s).tree
    ∧ ∃ δ, p.Adds (p.resolveScope s) δ ∧ q.Adds (q.resolveScope s) δ
  := by
  have hfoldl (xs : List SymbolId) (hxs : ∀ x ∈ xs, x ∈ (p.tree.scope s).table.values)
      {p' q' : Pass} (houtline : p'.tree.outline = p.tree.outline)
      (halongside : Alongside p q A p' q') :
      Alongside p q A (xs.foldl resolveSymbol p') (xs.foldl resolveSymbol q') := by
    induction xs generalizing p' q' with
    | nil => exact halongside
    | cons x xs ih =>
      obtain ⟨hx, hxs⟩ := List.forall_mem_cons.mp hxs
      apply ih hxs
      · rw [(p'.settles_resolveSymbol x).outline, houtline]
      · exact halongside.resolveSymbol hA houtline hx (hp.owner hx)
  have halongside : Alongside p q A (p.resolveScope s) (q.resolveScope s) := by
    rw [resolveScope, resolveScope, Tree.scope_eq_of_outline_eq h.outline]
    apply hfoldl _ (fun x hx => hx) rfl
    exact ⟨hconfig, rfl, h, .zero, p.adds_zero, q.adds_zero⟩
  exact ⟨halongside.tree, halongside.added⟩

end Pass

end FortranScope
