import FortranScope.Generic
import FortranScope.Type

/-!
# Symbols

A `Symbol` is a declared entity.  Its `Details` say what it is and hold the deferred
expressions of its declaration; its occurrences are the places where the entity was found
by name and where its name was removed.
-/

namespace FortranScope

/-- The attributes of an entity. -/
inductive Attr where
  | parameter
  | allocatable
  | pointer
  | save
deriving DecidableEq, Repr

/-- The keyword of an attribute. -/
def Attr.text : Attr → String
  | parameter => "PARAMETER"
  | allocatable => "ALLOCATABLE"
  | pointer => "POINTER"
  | save => "SAVE"

/-- Whether a symbol was found or its name removed. -/
inductive OccurrenceKind where
  | used
  | removed
deriving DecidableEq, Repr

/-- A place where a symbol was found or its name removed. -/
structure Occurrence where
  kind : OccurrenceKind
  span : Span
deriving DecidableEq, Repr

/-- Whether the value of a type parameter is known when the program is compiled. -/
inductive TypeParamRole where
  | kind
  | len
deriving DecidableEq, Repr

/-- The word a role is shown by. -/
def TypeParamRole.text : TypeParamRole → String
  | kind => "Kind"
  | len => "Len"

/-- A variable or a named constant.  Whether it is a dummy argument is not recorded, as no look-up,
analysis or resolution and no text depends on it. -/
structure ObjectDetails where
  type : Option DeclType
  init : Option Deferred
  shape : List Dimension
deriving DecidableEq

/-- A parameter of a derived type. -/
structure TypeParamDetails where
  role : TypeParamRole
  type : Option DeclType
  init : Option Deferred
deriving DecidableEq

/-- A function or subroutine, which an interface body only describes. -/
structure SubprogramDetails where
  isInterface : Bool
  dummyArgs : List SymbolId
  result : Option SymbolId
deriving DecidableEq

/-- What a symbol is. -/
inductive Details where
  | unknown
  | moduleUnit (isSubmodule : Bool)
  | mainProgram
  | subprogram (details : SubprogramDetails)
  | object (details : ObjectDetails)
  | typeParam (details : TypeParamDetails)
  | derivedType (paramNames : List String)
  | procedure (interface : ProcInterface)
  | generic (spec : GenericSpec) (specifics : List SymbolId)
deriving DecidableEq

namespace Details

instance : Inhabited Details := ⟨unknown⟩

/-- The word for what a symbol is. -/
def kindName : Details → String
  | unknown => "Unknown"
  | moduleUnit true => "Submodule"
  | moduleUnit false => "Module"
  | mainProgram => "MainProgram"
  | subprogram _ => "Subprogram"
  | object _ => "ObjectEntity"
  | typeParam _ => "TypeParam"
  | derivedType _ => "DerivedType"
  | procedure _ => "ProcEntity"
  | generic _ _ => "Generic"

/-- The declared type. -/
def type? : Details → Option DeclType
  | object details => details.type
  | typeParam details => details.type
  | procedure interface => interface.type?
  | _ => none

/-- Whether the details are those of an interface body. -/
def isInterfaceBody : Details → Bool
  | subprogram details => details.isInterface
  | _ => false

end Details

/-- A declared entity.  `owner` is the scope it was declared in, `scope` the scope that it
introduces, if there is one. -/
structure Symbol where
  id : SymbolId
  name : String
  owner : ScopeId
  scope : Option ScopeId
  attrs : List Attr
  details : Details
  declaredAt : Span
  occurrences : List Occurrence
deriving DecidableEq, Inhabited

namespace Symbol

/-- Whether the entity has the attribute. -/
def hasAttr (x : Symbol) (attr : Attr) : Bool := attr ∈ x.attrs

/-- The constant that `x` names: `x` has to be an object with the attribute
`Attr.parameter` whose initial value is resolved to a constant. -/
def namedConstant? (x : Symbol) : Option Constant :=
  match x.details with
  | .object details =>
    if x.hasAttr .parameter then details.init.bind fun init => init.expr?.bind Expr.constant?
    else none
  | _ => none

/-- The attributes as keywords in alphabetical order. -/
def attrTexts (x : Symbol) : List String :=
  (x.attrs.map Attr.text).mergeSort fun a b => a ≤ b

end Symbol

end FortranScope
