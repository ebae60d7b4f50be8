import FortranScope.Proofs.Tree.Frame

/-!
# What operations do

An operation on a tree is a short sequence of writes, and `Operation.Writes` says which ones it may
make and when.  What every write of an operation keeps is kept by the operation
(`Operation.apply_induction`), so invariants are shown of writes, one case for each.  In the record
of a scope that exists an operation changes at most one field, which `Operation.Edits` names; any
other field stays as it is (`field_scope_apply`).
-/

namespace FortranScope.Tree

variable {t u : Tree}

/-! ## Scopes -/

/-- `t` with a new scope inside `parent`. -/
def nest (t : Tree) (parent : ScopeId) (kind : ScopeKind) (symbol : Option SymbolId) : Tree :=
  modifyScope
    { t with scopes := t.scopes.push (.make ⟨t.scopes.size⟩ kind (some parent) symbol) } parent
    fun q => { q with children := q.children ++ [⟨t.scopes.size⟩] }

section

variable {parent : ScopeId} (kind : ScopeKind) (symbol : Option SymbolId)

@[simp]
theorem size_scopes_nest :
  (t.nest parent kind symbol).scopes.size = t.scopes.size + 1
  := by
  simp [nest]

/-- A nested scope takes the first identity that was free, and all others stay in use. -/
theorem hasScope_nest_iff {s : ScopeId} :
  (t.nest parent kind symbol).HasScope s ↔ t.HasScope s ∨ s = ⟨t.scopes.size⟩
  := by
  obtain ⟨i⟩ := s
  simp only [HasScope, size_scopes_nest, ScopeId.mk.injEq]
  omega

/-- The new scope is inside `parent`, and every other scope is where it was. -/
theorem parent_scope_nest (s : ScopeId) :
  ((t.nest parent kind symbol).scope s).parent
    = if s = ⟨t.scopes.size⟩ then some parent else (t.scope s).parent
  := by
  obtain ⟨i⟩ := s
  rw [nest, scope_modifyScope, scope_push]
  simp only [ScopeId.mk.injEq]
  split <;> split <;> rfl

/-- The new scope has nothing yet. -/
theorem field_make_or {α : Type} (field : Scope → α) {q : Scope} (hq : field q = field default)
    (s : ScopeId) :
  field (if s.index = t.scopes.size then q else t.scope s) = field (t.scope s)
  := by
  split
  · next hs => rw [scope_eq_default fun h => absurd hs (Nat.ne_of_lt h), hq]
  · rfl

/-- What a new scope does not have and its parent does not note stays as it is. -/
theorem field_scope_nest {α : Type} (field : Scope → α)
    (hmake : field (.make ⟨t.scopes.size⟩ kind (some parent) symbol) = field default)
    (hchildren : ∀ q : Scope,
      field { q with children := q.children ++ [⟨t.scopes.size⟩] } = field q)
    (s : ScopeId) :
  field ((t.nest parent kind symbol).scope s) = field (t.scope s)
  := by
  rw [nest, field_modifyScope field hchildren, scope_push, field_make_or field hmake]

/-- The new scope knows the symbol that introduces it. -/
theorem symbol_scope_nest_new (t : Tree) (parent : ScopeId) (kind : ScopeKind)
    (symbol : Option SymbolId) :
  ((t.nest parent kind symbol).scope ⟨t.scopes.size⟩).symbol = symbol
  := by
  rw [Tree.nest, field_modifyScope Scope.symbol]
  · rw [scope_push, if_pos rfl]
    rfl
  · intro q
    rfl

end

/-- A scope that is created is linked from its parent, and from the symbol that introduces it. -/
theorem makeScope_eq_ok {parent s : ScopeId} {kind : ScopeKind} {symbol : Option SymbolId}
    (hu : t.makeScope parent kind symbol = .ok (s, u)) :
  kind ≠ .global ∧ (kind = .moduleUnit → symbol.isSome) ∧ s = ⟨t.scopes.size⟩
    ∧ ((symbol = none ∧ u = t.nest parent kind none)
      ∨ ∃ x, symbol = some x ∧ u = (t.nest parent kind (some x)).modifySymbol x fun y =>
        { y with scope := some s })
  := by
  rw [makeScope] at hu
  split at hu
  · contradiction
  · next hkind =>
    split at hu
    · contradiction
    · next hmodule =>
      have hsymbol (hunit : kind = .moduleUnit) : symbol.isSome :=
        Option.isSome_iff_ne_none.mpr fun hnone => hmodule ⟨hunit, hnone⟩
      cases symbol with
      | none =>
        cases hu
        exact ⟨hkind, hsymbol, rfl, .inl ⟨rfl, rfl⟩⟩
      | some x =>
        cases hu
        exact ⟨hkind, hsymbol, rfl, .inr ⟨x, rfl, rfl⟩⟩

/-- What holds of a tree, and stays if the range of a scope grows, holds after `addRange`. -/
theorem addRange_induction {P : Tree → Prop} {span : Span} (h : P t)
    (hstep : ∀ u q, P u → P (u.modifyScope q fun r =>
      { r with range := some (growRange r.range span) })) (s : ScopeId) :
  P (t.addRange s span)
  := by
  rw [addRange]
  induction t.hosts s generalizing t with
  | nil => exact h
  | cons q hosts ih => apply ih (hstep t q h)

/-! ## Names -/

/-- `t` with a new symbol that is entered in the table of `s`. -/
def enter (t : Tree) (s : ScopeId) (name : Name) (details : Details) : Tree :=
  let x : Symbol := ⟨⟨t.symbols.size⟩, name.text, s, none, [], details, name.span, []⟩
  modifyScope { t with symbols := t.symbols.push x } s
    fun q => { q with table := q.table.insert name.text ⟨t.symbols.size⟩ }

/-- Of the symbols only the new one is another one than before. -/
theorem symbol_enter (t : Tree) (s : ScopeId) (name : Name) (details : Details) (x : SymbolId) :
  (t.enter s name details).symbol x
    = if x.index = t.symbols.size then
        ⟨⟨t.symbols.size⟩, name.text, s, none, [], details, name.span, []⟩
      else t.symbol x
  := by
  rw [enter, symbol_modifyScope, symbol_push]

/-- A symbol is declared if the name is free. -/
theorem declare_eq_ok {s : ScopeId} {name : Name} {details : Details} {x : SymbolId}
    (hu : t.declare s name details = .ok (x, u)) :
  t.local? s name.text = none ∧ x = ⟨t.symbols.size⟩ ∧ u = t.enter s name details
  := by
  rw [Tree.declare] at hu
  split at hu
  · contradiction
  · next hfree =>
    cases hu
    exact ⟨Option.not_isSome_iff_eq_none.mp hfree, rfl, rfl⟩

/-- A look-up notes the use of what it finds, and changes nothing else. -/
theorem after_useIfFound (t : Tree) (name : Name) (found : Option SymbolId) :
  (t.useIfFound name found).2 = t
    ∨ ∃ x, found = some x ∧ (t.useIfFound name found).2 = t.addOccurrence x .used name.span
  := by
  cases found with
  | none => exact .inl rfl
  | some x => exact .inr ⟨x, rfl, rfl⟩

/-- An import looks the name up in the parent, and notes it if it is found. -/
theorem after_addImportName (t : Tree) (s : ScopeId) (name : Name) :
  t.after (t.addImportName s name) = t
    ∨ ∃ p x, (t.scope s).parent = some p ∧ t.visible? p name.text = some x
      ∧ t.after (t.addImportName s name)
        = (t.addOccurrence x .used name.span).modifyScope s fun q =>
          { q with importNames := q.importNames.insert name.text }
  := by
  rw [addImportName]
  split
  · exact .inl rfl
  · next p hp =>
    rw [findSymbol]
    cases hx : t.visible? p name.text with
    | none => exact .inl rfl
    | some x => exact .inr ⟨p, x, hp, hx, rfl⟩

/-! ## Derived type specs -/

/-- A spec is bound to the definition of a derived type, and only if it is not bound yet. -/
theorem bindSpec_eq_ok {d : SpecId} {s : ScopeId} (hu : t.bindSpec d s = .ok u) :
  (t.spec d).scope = none ∧ (t.scope s).kind = .derivedType
    ∧ u = t.modifySpec d fun e => { e with scope := some s }
  := by
  rw [bindSpec] at hu
  split at hu
  · contradiction
  · next hunbound =>
    split at hu
    · next hkind =>
      cases hu
      exact ⟨Option.not_isSome_iff_eq_none.mp hunbound, hkind, rfl⟩
    · contradiction

namespace Operation

/-! ## Writes -/

/-- The operation may write the tree `u` in the place of `t`, as one of its steps. -/
inductive Writes : Operation → Tree → Tree → Prop
  | nest {t : Tree} {parent : ScopeId} {kind : ScopeKind} {symbol : Option SymbolId}
    (hkind : kind ≠ .global) (hmodule : kind = .moduleUnit → symbol.isSome) :
    Writes (.makeScope parent kind symbol) t (t.nest parent kind symbol)
  | introduce {t : Tree} {parent s : ScopeId} {kind : ScopeKind} {x : SymbolId}
    (hs : t.HasScope s) (hx : (t.scope s).symbol = some x) :
    Writes (.makeScope parent kind (some x)) t
      (t.modifySymbol x fun y => { y with scope := some s })
  | enter {t : Tree} {s : ScopeId} {name : Name} {details : Details}
    (hfree : t.local? s name.text = none) :
    Writes (.declare s name details) t (t.enter s name details)
  | find {t : Tree} {s : ScopeId} {name : Name} {x : SymbolId}
    (hx : t.local? s name.text = some x) :
    Writes (.find s name) t (t.addOccurrence x .used name.span)
  | findSymbol {t : Tree} {s : ScopeId} {name : Name} {x : SymbolId}
    (hx : t.visible? s name.text = some x) :
    Writes (.findSymbol s name) t (t.addOccurrence x .used name.span)
  | remove {t : Tree} {s : ScopeId} {name : Name} {x : SymbolId}
    (hx : t.local? s name.text = some x) :
    Writes (.erase s name) t (t.addOccurrence x .removed name.span)
  | erase {t : Tree} {s : ScopeId} {name : Name} :
    Writes (.erase s name) t
      (t.modifyScope s fun q => { q with table := q.table.erase name.text })
  | setImport {t : Tree} {s : ScopeId} {policy : ImportPolicy}
    (hfree : (t.scope s).importPolicy = none) :
    Writes (.setImport s policy) t
      (t.modifyScope s fun q => { q with importPolicy := some policy })
  | findAround {t : Tree} {s p : ScopeId} {name : Name} {x : SymbolId}
    (hp : (t.scope s).parent = some p) (hx : t.visible? p name.text = some x) :
    Writes (.addImportName s name) t (t.addOccurrence x .used name.span)
  | addImportName {t : Tree} {s : ScopeId} {name : Name} :
    Writes (.addImportName s name) t
      (t.modifyScope s fun q => { q with importNames := q.importNames.insert name.text })
  | addSubmodule {t : Tree} {s submodule : ScopeId} {name : String} :
    Writes (.addSubmodule s name submodule) t (t.modifyScope s fun q =>
      { q with submodules := q.submodules.insert (Text.foldCase name) submodule })
  | makeSpec {t : Tree} {s : ScopeId} {name : String} :
    Writes (.makeSpec s name) t
      { t with specs := t.specs.push ⟨Text.foldCase name, none, []⟩ }
  | listSpec {t : Tree} {s : ScopeId} {name : String} {d : SpecId} (hd : t.HasSpec d) :
    Writes (.makeSpec s name) t (t.modifyScope s fun q => { q with specs := q.specs ++ [d] })
  | bindSpec {t : Tree} {d : SpecId} {s : ScopeId} (hfree : (t.spec d).scope = none)
    (hkind : (t.scope s).kind = .derivedType) :
    Writes (.bindSpec d s) t (t.modifySpec d fun e => { e with scope := some s })
  | addParam {t : Tree} {d : SpecId} {name : Option String} {value : Extent} :
    Writes (.addParam d name value) t (t.addParam d name value)
  | addRange {t : Tree} {s q : ScopeId} {span : Span} :
    Writes (.addRange s span) t
      (t.modifyScope q fun r => { r with range := some (growRange r.range span) })
  | setDetails {t : Tree} {x : SymbolId} {details : Details} :
    Writes (.setDetails x details) t (t.setDetails x details)
  | addAttr {t : Tree} {x : SymbolId} {attr : Attr} :
    Writes (.addAttr x attr) t (t.addAttr x attr)
  | removeAttr {t : Tree} {x : SymbolId} {attr : Attr} :
    Writes (.removeAttr x attr) t (t.removeAttr x attr)

/-- What holds of a tree, and is kept by every write of an operation, holds after it. -/
theorem apply_induction {P : Tree → Prop} {o : Operation} (h : P t)
    (hwrite : ∀ u v, o.Writes u v → P u → P v) :
  P (o.apply t)
  := by
  cases o with
  | makeScope parent kind symbol =>
    rw [apply]
    cases hu : t.makeScope parent kind symbol with
    | error => exact h
    | ok outcome =>
      obtain ⟨hkind, hmodule, hs, hcases⟩ := makeScope_eq_ok hu
      -- the parent lists the scope first, and then the scope is noted at its symbol
      have hnest : P (t.nest parent kind symbol) := hwrite _ _ (.nest hkind hmodule) h
      obtain ⟨rfl, heq⟩ | ⟨x, rfl, heq⟩ := hcases
      · rw [after, heq]
        exact hnest
      · rw [after, heq, hs]
        apply hwrite _ _ _ hnest
        apply Writes.introduce
        · apply (hasScope_nest_iff kind (some x)).mpr (.inr rfl)
        · apply symbol_scope_nest_new
  | declare s name details =>
    rw [apply]
    cases hu : t.declare s name details with
    | error => exact h
    | ok outcome =>
      obtain ⟨hfree, -, heq⟩ := declare_eq_ok hu
      rw [after, heq]
      exact hwrite _ _ (.enter hfree) h
  | find s name =>
    rw [apply, Tree.find]
    obtain heq | ⟨x, hx, heq⟩ := t.after_useIfFound name (t.local? s name.text)
    · rw [heq]
      exact h
    · rw [heq]
      exact hwrite _ _ (.find hx) h
  | findSymbol s name =>
    rw [apply, Tree.findSymbol]
    obtain heq | ⟨x, hx, heq⟩ := t.after_useIfFound name (t.visible? s name.text)
    · rw [heq]
      exact h
    · rw [heq]
      exact hwrite _ _ (.findSymbol hx) h
  | erase s name =>
    rw [apply, Tree.erase]
    split
    · exact h
    · -- the removal is noted at the symbol, and then the entry goes
      next x hx => exact hwrite _ _ .erase (hwrite _ _ (.remove hx) h)
  | setImport s policy =>
    rw [apply, Tree.setImport]
    split
    · exact h
    · next hfree => exact hwrite _ _ (.setImport hfree) h
  | addImportName s name =>
    rw [apply]
    obtain heq | ⟨p, x, hp, hx, heq⟩ := t.after_addImportName s name
    · rw [heq]
      exact h
    · rw [heq]
      -- the name is sought from the parent, which notes a use, and then let in
      exact hwrite _ _ .addImportName (hwrite _ _ (.findAround hp hx) h)
  | addSubmodule s name submodule =>
    rw [apply, Tree.addSubmodule]
    split
    · exact h
    · exact hwrite _ _ .addSubmodule h
  | makeSpec s name =>
    -- the spec is there before the scope lists it
    apply hwrite _ _ (.listSpec _) (hwrite _ _ .makeSpec h)
    simp [HasSpec]
  | bindSpec d s =>
    rw [apply]
    cases hu : t.bindSpec d s with
    | error => exact h
    | ok u =>
      obtain ⟨hfree, hkind, rfl⟩ := bindSpec_eq_ok hu
      exact hwrite _ _ (.bindSpec hfree hkind) h
  | addParam => exact hwrite _ _ .addParam h
  | addRange s span => exact addRange_induction h (fun u q hu => hwrite _ _ .addRange hu) s
  | setDetails => exact hwrite _ _ .setDetails h
  | addAttr => exact hwrite _ _ .addAttr h
  | removeAttr => exact hwrite _ _ .removeAttr h

/-! ## Changes of a scope -/

/-- The operation may change the record of the scope `s` in this way. -/
inductive Edits (s : ScopeId) : Operation → (Scope → Scope) → Prop
  | makeScope (kind : ScopeKind) (symbol : Option SymbolId) (child : ScopeId) :
    Edits s (.makeScope s kind symbol) fun q => { q with children := q.children ++ [child] }
  | declare (name : Name) (details : Details) (x : SymbolId) :
    Edits s (.declare s name details) fun q => { q with table := q.table.insert name.text x }
  | erase (name : Name) :
    Edits s (.erase s name) fun q => { q with table := q.table.erase name.text }
  | setImport (policy : ImportPolicy) :
    Edits s (.setImport s policy) fun q => { q with importPolicy := some policy }
  | addImportName (name : Name) :
    Edits s (.addImportName s name) fun q =>
      { q with importNames := q.importNames.insert name.text }
  | addSubmodule (name : String) (submodule : ScopeId) :
    Edits s (.addSubmodule s name submodule) fun q =>
      { q with submodules := q.submodules.insert (Text.foldCase name) submodule }
  | makeSpec (name : String) (d : SpecId) :
    Edits s (.makeSpec s name) fun q => { q with specs := q.specs ++ [d] }
  | addRange (q : ScopeId) (span : Span) :
    Edits s (.addRange q span) fun r => { r with range := some (growRange r.range span) }

end Operation

/-- A field that the change does not concern stays as it is, in whichever scope it is made. -/
theorem field_scope_modifyScope {α : Type} (field : Scope → α) {s r : ScopeId}
    {f : Scope → Scope} (hf : r = s → ∀ q, field (f q) = field q) :
  field ((t.modifyScope r f).scope s) = field (t.scope s)
  := by
  rw [scope_modifyScope]
  split
  · next hs => exact hf hs.1.symm _
  · rfl

/-- An operation keeps every field of a scope that it does not change there, if a new scope has
nothing in that field. -/
theorem field_scope_apply {α : Type} (field : Scope → α) {s : ScopeId} {o : Operation}
    (hmake : ∀ s kind parent symbol, field (.make s kind parent symbol) = field default)
    (hedit : ∀ f, o.Edits s f → ∀ q, field (f q) = field q) :
  field ((o.apply t).scope s) = field (t.scope s)
  := by
  apply Operation.apply_induction (P := fun u => field (u.scope s) = field (t.scope s)) rfl
  intro u v hwrite hu
  rw [← hu]
  cases hwrite with
  | nest =>
    rw [nest]
    apply Eq.trans (field_scope_modifyScope field _)
    · rw [scope_push]
      apply field_make_or
      apply hmake
    · rintro rfl
      apply hedit
      constructor
  | enter | erase | setImport | addImportName | addSubmodule | listSpec | addRange =>
    apply field_scope_modifyScope field
    rintro rfl
    apply hedit
    constructor
  | _ => rfl

end FortranScope.Tree
