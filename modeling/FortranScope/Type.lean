import FortranScope.Deferred
import FortranScope.Text.Case

/-!
# Types

The types that declarations name: an `IntrinsicType` with its kind, a `DerivedTypeSpec`,
which applies a derived type to parameter values, and a `DeclType`, which is the type of
an entity.  A `ProcInterface` is what is known of a procedure.
-/

namespace FortranScope

/-- An intrinsic type with its kind. -/
structure IntrinsicType where
  category : TypeCategory
  kind : Int
  not_derived : category ≠ .derived
  kind_pos : 0 < kind
deriving DecidableEq

namespace IntrinsicType

/-- The type of the given category and kind.  The category may not be that of derived types,
and the kind has to be positive. -/
def make (category : TypeCategory) (kind : Int) : Except Defect IntrinsicType :=
  if hcategory : category = .derived then .error .derivedIsNotIntrinsic
  else if hkind : 0 < kind then .ok ⟨category, kind, hcategory, hkind⟩
  else .error (.kindNotPositive kind category)

/-- How the type is written. -/
def text (t : IntrinsicType) : String := t.category.text ++ "(" ++ toString t.kind ++ ")"

end IntrinsicType

/-- The declared type of an entity.  Two derived types are the same if they are given by the
same spec. -/
inductive DeclType where
  | intrinsic (type : IntrinsicType)
  | typeDerived (spec : SpecId)
  | classDerived (spec : SpecId)
  | typeStar
  | classStar
deriving DecidableEq

namespace DeclType

/-- The declaration of the given category by a derived type. -/
def derived (category : DeclCategory) (spec : SpecId) : Except Defect DeclType :=
  match category with
  | .typeDerived => .ok (typeDerived spec)
  | .classDerived => .ok (classDerived spec)
  | category => .error (.categoryNotDerived category)

/-- The declaration of the given category by an asterisk. -/
def star (category : DeclCategory) : Except Defect DeclType :=
  match category with
  | .typeStar => .ok typeStar
  | .classStar => .ok classStar
  | category => .error (.categoryNotStar category)

/-- How the type is declared. -/
def category : DeclType → DeclCategory
  | intrinsic _ => .intrinsic
  | typeDerived _ => .typeDerived
  | classDerived _ => .classDerived
  | typeStar => .typeStar
  | classStar => .classStar

/-- The derived type spec of a declaration by a derived type. -/
def spec? : DeclType → Option SpecId
  | typeDerived spec => some spec
  | classDerived spec => some spec
  | _ => none

/-- The intrinsic type of a declaration that has to be by one. -/
def intrinsicType : DeclType → Except Defect IntrinsicType
  | intrinsic type => .ok type
  | t => .error (.noIntrinsicType t.category)

/-- The derived type spec of a declaration that has to be by one. -/
def spec (t : DeclType) : Except Defect SpecId :=
  match t.spec? with
  | some spec => .ok spec
  | none => .error (.noDerivedType t.category)

end DeclType

/-- A use of a derived type: its name, the scope of its definition once that is known, and
the values of its parameters, some of them given by name. -/
structure DerivedTypeSpec where
  name : String
  scope : Option ScopeId
  params : List (Option String × Extent)
deriving DecidableEq, Inhabited

namespace DerivedTypeSpec

/-- A parameter value after its name. -/
def paramText (param : Option String × Extent) : String :=
  match param.1 with
  | some name => name ++ "=" ++ param.2.text
  | none => param.2.text

/-- How the use of the type is written. -/
def text (spec : DerivedTypeSpec) : String :=
  if spec.params.isEmpty then "TYPE(" ++ spec.name ++ ")"
  else "TYPE(" ++ spec.name ++ "(" ++ ",".intercalate (spec.params.map paramText) ++ "))"

end DerivedTypeSpec

/-- What is known of a procedure: nothing, the symbol that has the same interface, or only the
type of its result. -/
inductive ProcInterface where
  | unknown
  | symbol (symbol : SymbolId)
  | result (type : DeclType)
deriving DecidableEq

namespace ProcInterface

/-- The interface with the given symbol, unless a result type is known. -/
def setSymbol (i : ProcInterface) (id : SymbolId) : Except Defect ProcInterface :=
  match i with
  | result _ => .error .interfaceConflict
  | _ => .ok (symbol id)

/-- The interface with the given result type, unless a symbol is known. -/
def setType (i : ProcInterface) (type : DeclType) : Except Defect ProcInterface :=
  match i with
  | symbol _ => .error .interfaceConflict
  | _ => .ok (result type)

/-- The symbol with the same interface. -/
def symbol? : ProcInterface → Option SymbolId
  | symbol id => some id
  | _ => none

/-- The type of the result. -/
def type? : ProcInterface → Option DeclType
  | result type => some type
  | _ => none

end ProcInterface

end FortranScope
