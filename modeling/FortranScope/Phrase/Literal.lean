import FortranScope.Integer
import FortranScope.Phrase

/-!
# Literals

The value of a number token is the number and, after its first underscore, a kind.
`Phrase.literal?` is the phrase of a token that is an operand by itself.
-/

namespace FortranScope

/-- The part of `s` before its first underscore and, if there is one, the part after it. -/
def splitKind (s : String) : String × Option String :=
  let number := s.toList.takeWhile (· ≠ '_')
  match s.toList.dropWhile (· ≠ '_') with
  | [] => (String.ofList number, none)
  | _ :: kind => (String.ofList number, some (String.ofList kind))

/-- The integer literal with the value of `t`, if it lies in the range of values. -/
def Phrase.integerLiteral? (t : Token) : Option Phrase :=
  (Integer.ofText? .value (splitKind t.value).1).map fun value =>
    .integer value (splitKind t.value).2 t.span

/-- The phrase of the token `t` if it is an operand by itself.  An integer out of range gives
the inner `none`. -/
def Phrase.literal? (t : Token) : Option (Option Phrase) :=
  match t.kind with
  | .integer => some (integerLiteral? t)
  | .real => some (some (.real (splitKind t.value).1 (splitKind t.value).2 t.span))
  | .string => some (some (.character t.value t.span))
  | .logical => some (some (.logical (t.value = ".true.") t.span))
  | .identifier => some (some (.designator (Name.ofSpelling t.value t.span)))
  | _ => none

end FortranScope
