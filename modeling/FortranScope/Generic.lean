import FortranScope.Operator
import FortranScope.Text.Blank
import FortranScope.Text.Case

/-!
# Generic identifiers

A generic interface is identified by a name, an operator, the assignment or one of the four
data transfers.  `GenericSpec.ofOperator?` classifies the operator written in
`OPERATOR(...)`.
-/

namespace FortranScope

/-- An intrinsic operator that a generic interface may extend.  `+` and `-` stand for their
uses with one and with two operands alike. -/
inductive GenericOperator where
  | not
  | binary (operator : BinaryOperator)
deriving DecidableEq, Repr

namespace GenericOperator

/-- How the operator is written in a generic identifier, with a dotted word for a relational
operator. -/
def spelling : GenericOperator → String
  | not => ".NOT."
  | binary .eq => ".EQ."
  | binary .ne => ".NE."
  | binary .lt => ".LT."
  | binary .le => ".LE."
  | binary .gt => ".GT."
  | binary .ge => ".GE."
  | binary operator => operator.spelling

/-- The operator with the given spelling, in small letters.  A relational operator has two
spellings. -/
def ofSpelling? (s : String) : Option GenericOperator :=
  match s with
  | "+" => some (binary .add)
  | "-" => some (binary .subtract)
  | "*" => some (binary .multiply)
  | "/" => some (binary .divide)
  | "**" => some (binary .power)
  | "//" => some (binary .concat)
  | ".eq." => some (binary .eq)
  | "==" => some (binary .eq)
  | ".ne." => some (binary .ne)
  | "/=" => some (binary .ne)
  | ".lt." => some (binary .lt)
  | "<" => some (binary .lt)
  | ".le." => some (binary .le)
  | "<=" => some (binary .le)
  | ".gt." => some (binary .gt)
  | ">" => some (binary .gt)
  | ".ge." => some (binary .ge)
  | ">=" => some (binary .ge)
  | ".and." => some (binary .and)
  | ".or." => some (binary .or)
  | ".not." => some not
  | ".eqv." => some (binary .eqv)
  | ".neqv." => some (binary .neqv)
  | ".xor." => some (binary .xor)
  | _ => none

end GenericOperator

/-- What identifies a generic interface. -/
inductive GenericSpec where
  | name (word : String)
  | definedOperator (word : String)
  | assignment
  | readFormatted
  | readUnformatted
  | writeFormatted
  | writeUnformatted
  | intrinsic (operator : GenericOperator)
deriving DecidableEq, Repr

namespace GenericSpec

/-- Whether `s` consists of letters between two points. -/
def isDottedWord (s : List Char) : Bool :=
  match s with
  | '.' :: rest =>
    rest.getLast? = some '.' && !rest.dropLast.isEmpty && rest.dropLast.all Char.isAlpha
  | _ => false

/-- The operator that is written `spelling`, in letters of either case and with blanks around
it: an intrinsic one, or letters between two points. -/
def ofOperator? (spelling : String) : Option GenericSpec :=
  let word := Text.foldCase (Text.trim spelling)
  match GenericOperator.ofSpelling? word with
  | some operator => some (intrinsic operator)
  | none => if isDottedWord word.toList then some (definedOperator word) else none

/-- How the identifier is written. -/
def text : GenericSpec → String
  | name word => word
  | definedOperator word => "OPERATOR(" ++ word ++ ")"
  | assignment => "ASSIGNMENT(=)"
  | readFormatted => "READ(FORMATTED)"
  | readUnformatted => "READ(UNFORMATTED)"
  | writeFormatted => "WRITE(FORMATTED)"
  | writeUnformatted => "WRITE(UNFORMATTED)"
  | intrinsic operator => "OPERATOR(" ++ operator.spelling ++ ")"

end GenericSpec

end FortranScope
