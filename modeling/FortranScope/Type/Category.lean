/-!
# Categories of types

`TypeCategory` classifies types, `DeclCategory` the ways in which a declaration may name a
type.
-/

namespace FortranScope

/-- The sorts of types. -/
inductive TypeCategory where
  | integer
  | real
  | complex
  | character
  | logical
  | derived
deriving DecidableEq, Repr

namespace TypeCategory

/-- The keyword of a category. -/
def text : TypeCategory → String
  | integer => "INTEGER"
  | real => "REAL"
  | complex => "COMPLEX"
  | character => "CHARACTER"
  | logical => "LOGICAL"
  | derived => "TYPE"

/-- Every category. -/
def all : List TypeCategory := [integer, real, complex, character, logical, derived]

end TypeCategory

/-- The ways to declare the type of an entity: by an intrinsic type, by a derived type,
polymorphic or not, and by an asterisk. -/
inductive DeclCategory where
  | intrinsic
  | typeDerived
  | classDerived
  | typeStar
  | classStar
deriving DecidableEq, Repr

namespace DeclCategory

/-- The word a category is shown by. -/
def text : DeclCategory → String
  | intrinsic => "Intrinsic"
  | typeDerived => "TypeDerived"
  | classDerived => "ClassDerived"
  | typeStar => "TypeStar"
  | classStar => "ClassStar"

/-- Every category. -/
def all : List DeclCategory := [intrinsic, typeDerived, classDerived, typeStar, classStar]

end DeclCategory

end FortranScope
