import FortranScope.Scope.Kind
import FortranScope.Type.Category

/-!
# Defects

A `Defect` is the violation of a condition that the callers of an operation have to ensure.
Unlike a `Cause` it says nothing about the source that is analysed.  An operation that
finds one has no other effect.
-/

namespace FortranScope

/-- The conditions on the use of the operations on types, scopes and deferred
expressions. -/
inductive Defect where
  | derivedIsNotIntrinsic
  | kindNotPositive (kind : Int) (category : TypeCategory)
  | categoryNotDerived (category : DeclCategory)
  | categoryNotStar (category : DeclCategory)
  | noIntrinsicType (category : DeclCategory)
  | noDerivedType (category : DeclCategory)
  | interfaceConflict
  | valueNotExplicit
  | dimensionHalfAssumed
  | secondGlobalScope
  | moduleWithoutSymbol
  | noParent (kind : ScopeKind)
  | specScopeAlreadySet (name : String)
  | specScopeNotDerivedType
  | moduleSymbolMissing (scope : Nat)
  | moduleDetails (name detailsKind : String)
deriving DecidableEq, Repr

/-- The message that explains a defect; some have none. -/
def Defect.message : Defect → Option String
  | derivedIsNotIntrinsic => none
  | kindNotPositive kind category =>
    some ("kind " ++ toString kind ++ " of " ++ category.text ++ " must be positive")
  | categoryNotDerived category =>
    some (category.text ++ " cannot refer to a derived type spec")
  | categoryNotStar category =>
    some (category.text ++ " is not an unlimited polymorphic category")
  | noIntrinsicType category => some (category.text ++ " has no intrinsic type spec")
  | noDerivedType category => some (category.text ++ " has no derived type spec")
  | interfaceConflict => none
  | valueNotExplicit => none
  | dimensionHalfAssumed => none
  | secondGlobalScope => some "there is only one global scope"
  | moduleWithoutSymbol => some "a module scope needs the symbol that introduces it"
  | noParent kind => some (kind.text ++ " scope has no parent")
  | specScopeAlreadySet name => some ("scope of TYPE(" ++ name ++ ") is already set")
  | specScopeNotDerivedType => none
  | moduleSymbolMissing scope => some ("module scope " ++ toString scope ++ " has no symbol")
  | moduleDetails name detailsKind =>
    some ("module scope symbol " ++ name ++ " has " ++ detailsKind ++ " details")

end FortranScope
