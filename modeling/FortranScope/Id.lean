/-!
# Identities

Scopes, symbols and derived type specs are referred to by their number in the order of
creation, starting at `0`.  The numbers are not bounded.  An implementation that keeps them in
words of 32 bits has the same ones as long as it creates less than `2 ^ 32` scopes, symbols and
specs each.
-/

namespace FortranScope

/-- The identity of a scope, of which there may be any number. -/
structure ScopeId where
  index : Nat
deriving DecidableEq, Repr, Inhabited

/-- The identity of a symbol, of which there may be any number. -/
structure SymbolId where
  index : Nat
deriving DecidableEq, Repr, Inhabited

/-- The identity of a derived type spec, of which there may be any number. -/
structure SpecId where
  index : Nat
deriving DecidableEq, Repr, Inhabited

/-- The scope that contains every other. -/
def ScopeId.global : ScopeId := ⟨0⟩

end FortranScope
