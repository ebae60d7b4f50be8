import FortranScope.Scope
import FortranScope.Symbol

/-!
# Scope trees

A `Tree` owns the scopes, symbols and derived type specs of a program, each at the place
that its identity numbers; scope `0` is the global scope, from which every other one
descends.  The operations here create scopes and declare, find and remove names in a
single scope.  An operation that may fail gives the tree back only if it succeeds, or gives
it back unchanged.
-/

namespace FortranScope

/-- The scopes, symbols and derived type specs of a program. -/
structure Tree where
  scopes : Array Scope
  symbols : Array Symbol
  specs : Array DerivedTypeSpec
deriving DecidableEq

namespace Tree

/-- The tree with nothing but the global scope. -/
def initial : Tree := ⟨#[Scope.make .global .global none none], #[], #[]⟩

instance : Inhabited Tree := ⟨initial⟩

/-! ## Access by identity -/

/-- The scope with the given identity. -/
def scope (t : Tree) (s : ScopeId) : Scope := (t.scopes[s.index]?).getD default

/-- The symbol with the given identity. -/
def symbol (t : Tree) (x : SymbolId) : Symbol := (t.symbols[x.index]?).getD default

/-- The derived type spec with the given identity. -/
def spec (t : Tree) (d : SpecId) : DerivedTypeSpec := (t.specs[d.index]?).getD default

/-- `t` with the scope `s` changed by `f`. -/
def modifyScope (t : Tree) (s : ScopeId) (f : Scope → Scope) : Tree :=
  { t with scopes := t.scopes.modify s.index f }

/-- `t` with the symbol `x` changed by `f`. -/
def modifySymbol (t : Tree) (x : SymbolId) (f : Symbol → Symbol) : Tree :=
  { t with symbols := t.symbols.modify x.index f }

/-- `t` with the derived type spec `d` changed by `f`. -/
def modifySpec (t : Tree) (d : SpecId) (f : DerivedTypeSpec → DerivedTypeSpec) : Tree :=
  { t with specs := t.specs.modify d.index f }

/-- A modified scope is what the modification makes of it. -/
theorem scope_modifyScope_self {t : Tree} {s : ScopeId} (f : Scope → Scope)
    (h : s.index < t.scopes.size) :
  (t.modifyScope s f).scope s = f (t.scope s)
  := by
  rw [scope, scope, modifyScope, Array.getElem?_modify, if_pos rfl, Array.getElem?_eq_getElem h]
  rfl

/-- Modifying one scope leaves every other scope as it was. -/
theorem scope_modifyScope_of_ne (t : Tree) {s r : ScopeId} (f : Scope → Scope) (h : r ≠ s) :
  (t.modifyScope s f).scope r = t.scope r
  := by
  have hi : s.index ≠ r.index := by
    intro hi
    apply h
    cases s
    cases r
    simp_all
  simp [scope, modifyScope, Array.getElem?_modify, hi]

/-- A modified symbol is what the modification makes of it. -/
theorem symbol_modifySymbol_self {t : Tree} {x : SymbolId} (f : Symbol → Symbol)
    (h : x.index < t.symbols.size) :
  (t.modifySymbol x f).symbol x = f (t.symbol x)
  := by
  rw [symbol, symbol, modifySymbol, Array.getElem?_modify, if_pos rfl,
    Array.getElem?_eq_getElem h]
  rfl

/-- Modifying one symbol leaves every other symbol as it was. -/
theorem symbol_modifySymbol_of_ne (t : Tree) {x y : SymbolId} (f : Symbol → Symbol)
    (h : y ≠ x) :
  (t.modifySymbol x f).symbol y = t.symbol y
  := by
  have hi : x.index ≠ y.index := by
    intro hi
    apply h
    cases x
    cases y
    simp_all
  simp [symbol, modifySymbol, Array.getElem?_modify, hi]

@[simp]
theorem scope_modifySymbol (t : Tree) (x : SymbolId) (f : Symbol → Symbol) (s : ScopeId) :
  (t.modifySymbol x f).scope s = t.scope s
  := rfl

/-- Modifying a scope leaves the symbols as they were. -/
@[simp]
theorem symbol_modifyScope (t : Tree) (s : ScopeId) (f : Scope → Scope) (x : SymbolId) :
  (t.modifyScope s f).symbol x = t.symbol x
  := rfl

/-! ## Growth -/

/-- A new scope of the given kind inside `parent`.  `symbol` is the entity that introduces it,
which a module needs. -/
def makeScope (t : Tree) (parent : ScopeId) (kind : ScopeKind) (symbol : Option SymbolId) :
    Except Defect (ScopeId × Tree) :=
  if kind = .global then .error .secondGlobalScope
  else if kind = .moduleUnit ∧ symbol = none then .error .moduleWithoutSymbol
  else
    let id : ScopeId := ⟨t.scopes.size⟩
    let grown : Tree := { t with scopes := t.scopes.push (.make id kind (some parent) symbol) }
    let linked := grown.modifyScope parent fun s => { s with children := s.children ++ [id] }
    match symbol with
    | none => .ok (id, linked)
    | some x => .ok (id, linked.modifySymbol x fun s => { s with scope := some id })

/-- Declares `name` in `s`, where it may not be declared yet. -/
def declare (t : Tree) (s : ScopeId) (name : Name) (details : Details) :
    Except Diagnostic (SymbolId × Tree) :=
  if (t.scope s).table.contains name.text then
    .error (.error (.symbolAlreadyDeclared name.text) name.span.first)
  else
    let id : SymbolId := ⟨t.symbols.size⟩
    let x : Symbol := ⟨id, name.text, s, none, [], details, name.span, []⟩
    let grown : Tree := { t with symbols := t.symbols.push x }
    .ok (id, grown.modifyScope s fun r => { r with table := r.table.insert name.text id })

/-! ## Names of one scope -/

/-- The symbol that `s` itself gives to the name `text`. -/
def local? (t : Tree) (s : ScopeId) (text : String) : Option SymbolId :=
  (t.scope s).table.get? text

/-- Notes that the symbol `x` occurs at `span`. -/
def addOccurrence (t : Tree) (x : SymbolId) (kind : OccurrenceKind) (span : Span) : Tree :=
  t.modifySymbol x fun y => { y with occurrences := y.occurrences ++ [⟨kind, span⟩] }

/-- Notes that `name` was found to denote the given symbol, if it was found at all. -/
def useIfFound (t : Tree) (name : Name) : Option SymbolId → Option SymbolId × Tree
  | none => (none, t)
  | some x => (some x, t.addOccurrence x .used name.span)

/-- Finds `name` in `s` itself. -/
def find (t : Tree) (s : ScopeId) (name : Name) : Option SymbolId × Tree :=
  t.useIfFound name (t.local? s name.text)

/-- Removes `name` from `s`, and gives the number of names removed.  The symbol itself
stays. -/
def erase (t : Tree) (s : ScopeId) (name : Name) : Nat × Tree :=
  match t.local? s name.text with
  | none => (0, t)
  | some x =>
    (1, (t.addOccurrence x .removed name.span).modifyScope s fun r =>
      { r with table := r.table.erase name.text })

/-! ## Entities -/

/-- `t` with other details for the symbol `x`. -/
def setDetails (t : Tree) (x : SymbolId) (details : Details) : Tree :=
  t.modifySymbol x fun y => { y with details := details }

/-- `t` with the attribute for the symbol `x`. -/
def addAttr (t : Tree) (x : SymbolId) (attr : Attr) : Tree :=
  t.modifySymbol x fun y => { y with attrs := y.attrs.insert attr }

/-- `t` without the attribute for the symbol `x`. -/
def removeAttr (t : Tree) (x : SymbolId) (attr : Attr) : Tree :=
  t.modifySymbol x fun y => { y with attrs := y.attrs.filter (· ≠ attr) }

end Tree

end FortranScope
