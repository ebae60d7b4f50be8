import FortranScope.Scope.Kind
import FortranScope.Id
import FortranScope.Diagnostic
import FortranScope.Table

/-!
# Scopes

A `Scope` holds the names declared in one place of the program, and says which names of
the surrounding scope, its host, are known there.
-/

namespace FortranScope

/-- What the `IMPORT` statements of a scope say. -/
inductive ImportPolicy where
  | default
  | none
  | all
  | only
deriving DecidableEq, Repr

/-- The statement that sets a policy. -/
def ImportPolicy.text : ImportPolicy → String
  | .default => "IMPORT"
  | .none => "IMPORT, NONE"
  | .all => "IMPORT, ALL"
  | .only => "IMPORT, ONLY"

/-- The constraint that a statement with the policy `next` violates after one with the policy
`first`. -/
def ImportPolicy.conflict? (first next : ImportPolicy) : Option Cause :=
  if first = .none ∨ next = .none then some .importNoneNotSole
  else if first = .all ∨ next = .all then some .importAllNotSole
  else if first = .only ↔ next = .only then Option.none
  else some .importOnlyMismatch

/-- A part of the program with names of its own.  `symbol` is the entity that introduces the
scope, `range` covers the part of the source that is known to belong to it. -/
structure Scope where
  id : ScopeId
  kind : ScopeKind
  parent : Option ScopeId
  children : List ScopeId
  symbol : Option SymbolId
  table : Table SymbolId
  submodules : Table ScopeId
  specs : List SpecId
  importPolicy : Option ImportPolicy
  importNames : List String
  range : Option Span
deriving DecidableEq, Inhabited

/-- A new scope, without names. -/
def Scope.make (id : ScopeId) (kind : ScopeKind) (parent : Option ScopeId)
    (symbol : Option SymbolId) : Scope :=
  ⟨id, kind, parent, [], symbol, .empty, .empty, [], none, [], none⟩

end FortranScope
