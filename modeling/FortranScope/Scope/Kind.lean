/-!
# Kinds of scopes

`ScopeKind` says which construct of a program a scope belongs to.
-/

namespace FortranScope

/-- What introduces a scope.  A submodule has a scope of kind `moduleUnit`. -/
inductive ScopeKind where
  | global
  | moduleUnit
  | mainProgram
  | subprogram
  | derivedType
  | block
  | forallConstruct
  | impliedDos
deriving DecidableEq, Repr, Inhabited

namespace ScopeKind

/-- The word a kind is shown by. -/
def text : ScopeKind → String
  | global => "Global"
  | moduleUnit => "Module"
  | mainProgram => "MainProgram"
  | subprogram => "Subprogram"
  | derivedType => "DerivedType"
  | block => "Block"
  | forallConstruct => "Forall"
  | impliedDos => "ImpliedDos"

/-- Every kind. -/
def all : List ScopeKind :=
  [global, moduleUnit, mainProgram, subprogram, derivedType, block, forallConstruct, impliedDos]

end ScopeKind

end FortranScope
