import FortranScope.Proofs.Tree.Persistence

/-!
# Coherent trees

In a coherent tree parents and children agree, a scope is younger than its parent, and the
names of a scope are those of the symbols that it owns, in the order of their declaration.
Every operation keeps trees coherent, most of them because they leave alone whatever matters
for it.
-/

namespace FortranScope.Tree

/-- Parents, children and tables of a tree fit together. -/
structure Coherent (t : Tree) : Prop where
  root : t.HasScope .global
  rootParent : (t.scope .global).parent = none
  parent : ∀ s, t.HasScope s → s ≠ .global →
    ∃ p, (t.scope s).parent = some p ∧ p.index < s.index
  children : ∀ p s, s ∈ (t.scope p).children ↔ t.HasScope s ∧ (t.scope s).parent = some p
  entries : ∀ s, ∀ entry ∈ (t.scope s).table.entries,
    t.HasSymbol entry.2 ∧ (t.symbol entry.2).name = entry.1 ∧ (t.symbol entry.2).owner = s
  sorted : ∀ s, (t.scope s).table.values.Pairwise fun x y => x.index < y.index

/-! ## Trees that agree on what matters -/

/-- `t'` has the parents, children and tables that `t` has, and the names and owners of
symbols. -/
structure SameFrame (t t' : Tree) : Prop where
  size : t'.scopes.size = t.scopes.size
  parent : ∀ s, (t'.scope s).parent = (t.scope s).parent
  children : ∀ s, (t'.scope s).children = (t.scope s).children
  table : ∀ s, (t'.scope s).table = (t.scope s).table
  symbols : t'.symbols.size = t.symbols.size
  name : ∀ x, (t'.symbol x).name = (t.symbol x).name
  owner : ∀ x, (t'.symbol x).owner = (t.symbol x).owner

/-- `t'` is like `t`, and its scopes have the ranges that they have in `t`. -/
structure Alike (t t' : Tree) : Prop extends SameFrame t t' where
  range : ∀ s, (t'.scope s).range = (t.scope s).range

section

variable {t t' t'' : Tree}

theorem SameFrame.trans (h : t.SameFrame t') (h' : t'.SameFrame t'') :
  t.SameFrame t''
  := by
  constructor
  · rw [h'.size, h.size]
  · intro s
    rw [h'.parent, h.parent]
  · intro s
    rw [h'.children, h.children]
  · intro s
    rw [h'.table, h.table]
  · rw [h'.symbols, h.symbols]
  · intro x
    rw [h'.name, h.name]
  · intro x
    rw [h'.owner, h.owner]

/-- Derived type specs do not matter. -/
theorem alike_of_eq (hscopes : t'.scopes = t.scopes) (hsymbols : t'.symbols = t.symbols) :
  t.Alike t'
  := by
  have hscope (s : ScopeId) : t'.scope s = t.scope s := by
    rw [scope, hscopes]
    rfl
  have hsymbol (x : SymbolId) : t'.symbol x = t.symbol x := by
    rw [symbol, hsymbols]
    rfl
  constructor
  · constructor <;> simp [hscope, hsymbol, hscopes, hsymbols]
  · intro s
    rw [hscope]

/-- Trees with the same outline are alike. -/
theorem alike_of_outline_eq (h : t'.outline = t.outline) :
  t.Alike t'
  := by
  have hscope := scope_eq_of_outline_eq h
  constructor
  · constructor
    · rw [scopes_eq_of_outline_eq h]
    · intro s
      rw [hscope]
    · intro s
      rw [hscope]
    · intro s
      rw [hscope]
    · apply size_symbols_eq_of_outline_eq h
    · intro x
      apply congrArg Symbol.name (outline_symbol_eq_of_outline_eq h x)
    · apply owner_eq_of_outline_eq h
  · intro s
    rw [hscope]

/-- A change of a scope that keeps parent, children and table keeps the frame. -/
theorem sameFrame_modifyScope (t : Tree) (s : ScopeId) {f : Scope → Scope}
    (hparent : ∀ q, (f q).parent = q.parent) (hchildren : ∀ q, (f q).children = q.children)
    (htable : ∀ q, (f q).table = q.table) :
  t.SameFrame (t.modifyScope s f)
  := by
  constructor
  · apply size_scopes_modifyScope
  · apply field_modifyScope Scope.parent hparent
  · apply field_modifyScope Scope.children hchildren
  · apply field_modifyScope Scope.table htable
  · rfl
  · intro x
    rfl
  · intro x
    rfl

/-- A change of a scope that also keeps the range gives a tree alike. -/
theorem alike_modifyScope (t : Tree) (s : ScopeId) {f : Scope → Scope}
    (hparent : ∀ q, (f q).parent = q.parent) (hchildren : ∀ q, (f q).children = q.children)
    (htable : ∀ q, (f q).table = q.table) (hrange : ∀ q, (f q).range = q.range) :
  t.Alike (t.modifyScope s f)
  := by
  constructor
  · apply t.sameFrame_modifyScope s hparent hchildren htable
  · apply field_modifyScope Scope.range hrange

/-- A change of a symbol that keeps name and owner gives a tree alike. -/
theorem alike_modifySymbol (t : Tree) (x : SymbolId) {f : Symbol → Symbol}
    (hname : ∀ y, (f y).name = y.name) (howner : ∀ y, (f y).owner = y.owner) :
  t.Alike (t.modifySymbol x f)
  := by
  constructor
  · constructor
    · rfl
    · intro s
      rfl
    · intro s
      rfl
    · intro s
      rfl
    · apply size_symbols_modifySymbol
    · apply field_modifySymbol Symbol.name hname
    · apply field_modifySymbol Symbol.owner howner
  · intro s
    rfl

theorem alike_modifySpec (t : Tree) (d : SpecId) (f : DerivedTypeSpec → DerivedTypeSpec) :
  t.Alike (t.modifySpec d f)
  := alike_of_eq rfl rfl

/-- Coherence depends on nothing else. -/
theorem Coherent.of_sameFrame (h : t.Coherent) (hframe : t.SameFrame t') :
  t'.Coherent
  := by
  have hscope (s : ScopeId) : t'.HasScope s ↔ t.HasScope s := by
    rw [HasScope, HasScope, hframe.size]
  have hsymbol (x : SymbolId) : t'.HasSymbol x ↔ t.HasSymbol x := by
    rw [HasSymbol, HasSymbol, hframe.symbols]
  constructor
  · apply (hscope _).mpr h.root
  · rw [hframe.parent, h.rootParent]
  · intro s hs
    rw [hframe.parent]
    apply h.parent s ((hscope s).mp hs)
  · intro p s
    rw [hframe.children, hframe.parent, hscope, h.children]
  · intro s entry hentry
    rw [hframe.table] at hentry
    rw [hframe.name, hframe.owner, hsymbol]
    apply h.entries s entry hentry
  · intro s
    rw [hframe.table]
    apply h.sorted

end

/-- Coherence speaks only of what trees that are alike have in common. -/
theorem Coherent.of_alike {t t' : Tree} (h : t.Coherent) (halike : t.Alike t') :
  t'.Coherent
  := h.of_sameFrame halike.toSameFrame

/-! ## Growth -/

section

variable {t : Tree} {parent : ScopeId} (kind : ScopeKind) (symbol : Option SymbolId)

/-- The new scope becomes the last child of its parent, and no other scope gains one. -/
theorem children_scope_nest (hparent : t.HasScope parent) (s : ScopeId) :
  ((t.nest parent kind symbol).scope s).children
    = if s = parent then (t.scope s).children ++ [⟨t.scopes.size⟩] else (t.scope s).children
  := by
  have hgrown : HasScope
      { t with scopes := t.scopes.push (.make ⟨t.scopes.size⟩ kind (some parent) symbol) }
      parent := by
    simp only [HasScope, Array.size_push]
    exact Nat.lt_succ_of_lt hparent
  have hchildren : (if s.index = t.scopes.size then .make ⟨t.scopes.size⟩ kind (some parent) symbol
      else t.scope s).children = (t.scope s).children := by
    apply field_make_or Scope.children
    rfl
  rw [nest, scope_modifyScope, scope_push]
  simp only [hgrown, and_true]
  split
  · rw [hchildren]
  · rw [hchildren]

theorem table_scope_nest (s : ScopeId) :
  ((t.nest parent kind symbol).scope s).table = (t.scope s).table
  := field_scope_nest kind symbol Scope.table rfl (fun _ => rfl) s

/-- What a new scope is linked to makes it introduce the scope, which does not matter. -/
theorem alike_nest_of_makeScope {kind : ScopeKind} {symbol : Option SymbolId} {s : ScopeId}
    {u : Tree} (h : t.makeScope parent kind symbol = .ok (s, u)) :
  (t.nest parent kind symbol).Alike u
  := by
  obtain ⟨-, -, -, ⟨rfl, rfl⟩ | ⟨x, rfl, rfl⟩⟩ := makeScope_eq_ok h
  · apply alike_of_eq rfl rfl
  · apply alike_modifySymbol
    · intro y
      rfl
    · intro y
      rfl

end

/-! ## Operations that matter -/

section

variable {t : Tree}

/-- The tree with the global scope alone is coherent. -/
theorem coherent_initial :
  initial.Coherent
  := by
  have hscope (s : ScopeId) : (initial.scope s).parent = none ∧ (initial.scope s).children = []
      ∧ (initial.scope s).table = .empty := by
    obtain ⟨i⟩ := s
    cases i with
    | zero => exact ⟨rfl, rfl, rfl⟩
    | succ i => exact ⟨rfl, rfl, rfl⟩
  constructor
  · apply Nat.zero_lt_one
  · rfl
  · intro s hs hglobal
    apply absurd _ hglobal
    obtain ⟨i⟩ := s
    exact congrArg ScopeId.mk (Nat.lt_one_iff.mp hs)
  · intro p s
    simp [hscope]
  · intro s entry hentry
    rw [(hscope s).2.2] at hentry
    contradiction
  · intro s
    rw [(hscope s).2.2]
    apply List.Pairwise.nil

/-- The new scope is the only one whose parent changes, and its parent the only one whose
children do. -/
theorem Coherent.nest (h : t.Coherent) {parent : ScopeId} (hparent : t.HasScope parent)
    (kind : ScopeKind) (symbol : Option SymbolId) :
  (t.nest parent kind symbol).Coherent
  := by
  have hnew : ¬ t.HasScope ⟨t.scopes.size⟩ := Nat.lt_irrefl _
  constructor
  · apply (hasScope_nest_iff kind symbol).mpr (.inl h.root)
  · rw [parent_scope_nest, if_neg, h.rootParent]
    intro hglobal
    rw [← hglobal] at hnew
    exact hnew h.root
  · intro s hs hglobal
    rw [parent_scope_nest]
    split
    · next hs =>
      use parent, rfl
      rw [hs]
      apply hparent
    · next hne =>
      apply h.parent s _ hglobal
      apply ((hasScope_nest_iff kind symbol).mp hs).resolve_right hne
  · intro p s
    rw [children_scope_nest kind symbol hparent, hasScope_nest_iff, parent_scope_nest]
    -- the identity of the new scope was free, so no other scope lists it
    by_cases hs : s = ⟨t.scopes.size⟩
    · have hold : s ∉ (t.scope p).children := by
        rw [h.children, hs]
        exact fun hs => hnew hs.1
      by_cases hp : p = parent
      · simp [hs, hp]
      · simp only [hs, if_neg hp, if_true, or_true, true_and, Option.some.injEq]
        rw [← hs]
        exact ⟨fun hmem => absurd hmem hold, fun hparent => absurd hparent.symm hp⟩
    · rw [if_neg hs, or_iff_left hs, ← h.children]
      by_cases hp : p = parent
      · simp [hp, hs]
      · simp [hp]
  · intro s entry hentry
    rw [table_scope_nest] at hentry
    apply h.entries s entry hentry
  · intro s
    rw [table_scope_nest]
    apply h.sorted

/-- A new symbol is not in any table yet. -/
theorem Coherent.push (h : t.Coherent) (y : Symbol) :
  Coherent { t with symbols := t.symbols.push y }
  := by
  constructor
  · apply h.root
  · apply h.rootParent
  · apply h.parent
  · apply h.children
  · intro s entry hentry
    obtain ⟨hsymbol, hentry⟩ := h.entries s entry hentry
    rw [symbol_push, if_neg (Nat.ne_of_lt hsymbol)]
    refine ⟨?_, hentry⟩
    simp only [HasSymbol, Array.size_push]
    apply Nat.lt_succ_of_lt hsymbol
  · apply h.sorted

/-- A table may be replaced by one whose entries are symbols of the scope under their own names, in
the order of their declaration. -/
theorem Coherent.modifyTable (h : t.Coherent) {s : ScopeId} (f : Table SymbolId → Table SymbolId)
    (hentries : ∀ entry ∈ (f (t.scope s).table).entries,
      t.HasSymbol entry.2 ∧ (t.symbol entry.2).name = entry.1 ∧ (t.symbol entry.2).owner = s)
    (hsorted : (f (t.scope s).table).values.Pairwise fun x y => x.index < y.index) :
  (t.modifyScope s fun r => { r with table := f r.table }).Coherent
  := by
  have hparent := t.field_modifyScope Scope.parent
    (f := fun r => { r with table := f r.table }) (fun _ => rfl) s
  have hchildren := t.field_modifyScope Scope.children
    (f := fun r => { r with table := f r.table }) (fun _ => rfl) s
  have hscope (q : ScopeId) :
      (t.modifyScope s fun r => { r with table := f r.table }).HasScope q ↔ t.HasScope q := by
    simp [HasScope]
  constructor
  · apply (hscope _).mpr h.root
  · rw [hparent, h.rootParent]
  · intro q hq
    rw [hparent]
    apply h.parent q ((hscope q).mp hq)
  · intro p q
    rw [hchildren, hparent, hscope, h.children]
  · intro q entry hentry
    rw [scope_modifyScope] at hentry
    split at hentry
    · next hq =>
      rw [hq.1] at hentry ⊢
      apply hentries entry hentry
    · apply h.entries q entry hentry
  · intro q
    rw [scope_modifyScope]
    split
    · next hq =>
      rw [hq.1]
      apply hsorted
    · apply h.sorted

/-- The symbols in a table exist. -/
theorem Coherent.hasSymbol (h : t.Coherent) {s : ScopeId} {x : SymbolId}
    (hx : x ∈ (t.scope s).table.values) :
  t.HasSymbol x
  := by
  obtain ⟨entry, hentry, rfl⟩ := List.mem_map.mp hx
  apply (h.entries s entry hentry).1

/-- The symbols in the table of a scope are owned by it. -/
theorem Coherent.owner (h : t.Coherent) {s : ScopeId} {x : SymbolId}
    (hx : x ∈ (t.scope s).table.values) :
  (t.symbol x).owner = s
  := by
  obtain ⟨entry, hentry, rfl⟩ := List.mem_map.mp hx
  apply (h.entries s entry hentry).2.2

/-- The new symbol is entered under its name, and it is the youngest. -/
theorem Coherent.enter (h : t.Coherent) (s : ScopeId) (name : Name) (details : Details) :
  (t.enter s name details).Coherent
  := by
  have hpush := h.push ⟨⟨t.symbols.size⟩, name.text, s, none, [], details, name.span, []⟩
  apply hpush.modifyTable fun table => table.insert name.text ⟨t.symbols.size⟩
  · intro entry hentry
    rcases List.mem_append.mp hentry with hold | hnew
    · apply hpush.entries s entry (List.mem_filter.mp hold).1
    · obtain rfl := List.mem_singleton.mp hnew
      rw [symbol_push, if_pos rfl]
      refine ⟨?_, rfl, rfl⟩
      simp [HasSymbol]
  · rw [Table.values, Table.insert, List.map_append, List.pairwise_append]
    refine ⟨?_, List.pairwise_singleton _ _, ?_⟩
    · apply List.Pairwise.sublist _ (h.sorted s)
      apply List.filter_sublist.map
    · intro y hy z hz
      obtain rfl := List.mem_singleton.mp hz
      apply h.hasSymbol
      apply (List.filter_sublist.map _).subset hy

/-- A declaration that succeeds keeps the tree coherent. -/
theorem Coherent.declare (h : t.Coherent) {s : ScopeId} {name : Name} {details : Details}
    {x : SymbolId} {u : Tree} (hu : t.declare s name details = .ok (x, u)) :
  u.Coherent
  := by
  obtain ⟨-, -, rfl⟩ := declare_eq_ok hu
  apply h.enter

/-- The names that are left stay as they are. -/
theorem Coherent.eraseName (h : t.Coherent) (s : ScopeId) (name : Name) :
  (t.modifyScope s fun q => { q with table := q.table.erase name.text }).Coherent
  := by
  apply h.modifyTable fun table => table.erase name.text
  · intro entry hentry
    apply h.entries s entry (List.mem_filter.mp hentry).1
  · apply List.Pairwise.sublist _ (h.sorted s)
    apply List.filter_sublist.map

/-! ## Operations that do not matter -/

/-- Noting a use changes only occurrences. -/
theorem alike_useIfFound (t : Tree) (name : Name) (x : Option SymbolId) :
  t.Alike (t.useIfFound name x).2
  := by
  cases x with
  | none => apply alike_of_eq rfl rfl
  | some x =>
    apply alike_modifySymbol
    · intro y
      rfl
    · intro y
      rfl

/-- Only the ranges of scopes change. -/
theorem sameFrame_addRange (t : Tree) (s : ScopeId) (span : Span) :
  t.SameFrame (t.addRange s span)
  := by
  apply addRange_induction
  · apply (alike_of_eq rfl rfl).toSameFrame
  · intro u q h
    apply h.trans
    apply sameFrame_modifyScope <;> intro r <;> rfl

/-- The operation neither creates scopes nor changes tables or ranges. -/
def Operation.IsPlain : Operation → Prop
  | makeScope _ _ _ => False
  | declare _ _ _ => False
  | erase _ _ => False
  | addRange _ _ => False
  | _ => True

/-- A write of a plain operation changes a symbol, a spec or a field of a scope that no other scope
depends on. -/
theorem alike_write {u : Tree} {o : Operation} (ho : o.IsPlain) (hwrite : o.Writes t u) :
  t.Alike u
  := by
  cases hwrite with
  | nest | introduce | enter | remove | erase | addRange => contradiction
  | find | findSymbol | findAround | setDetails | addAttr | removeAttr =>
    apply alike_modifySymbol <;> intro y <;> rfl
  | setImport | addImportName | addSubmodule | listSpec =>
    apply alike_modifyScope <;> intro q <;> rfl
  | makeSpec => exact alike_of_eq rfl rfl
  | bindSpec | addParam => apply alike_modifySpec

/-- A write of a valid operation keeps a tree coherent. -/
theorem Coherent.write (h : t.Coherent) {u : Tree} {o : Operation} (ho : o.Valid t)
    (hwrite : o.Writes t u) :
  u.Coherent
  := by
  by_cases hplain : o.IsPlain
  · exact h.of_alike (alike_write hplain hwrite)
  · cases hwrite with
    | nest => apply h.nest ho.1
    | enter => apply h.enter
    | erase => apply h.eraseName
    | introduce | remove =>
      apply h.of_alike
      apply alike_modifySymbol <;> intro y <;> rfl
    | addRange =>
      apply h.of_sameFrame
      apply sameFrame_modifyScope <;> intro r <;> rfl
    | _ => exact absurd trivial hplain

/-- A valid operation keeps a tree coherent. -/
theorem Coherent.apply (h : t.Coherent) {o : Operation} (ho : o.Valid t) :
  (o.apply t).Coherent
  := by
  apply ho.apply_induction h
  intro u v hu hwrite hcoherent
  apply hcoherent.write hu hwrite

end

end FortranScope.Tree
