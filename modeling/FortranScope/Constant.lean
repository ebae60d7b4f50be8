/-!
# Constants

A `Constant` is a value of one of the four types that constants of specification
expressions have, with its kind.  `Constant.text` is how it is written; no kind is shown.
-/

namespace FortranScope

/-- A value with its kind.  A real value is kept as its digits. -/
inductive Constant where
  | integer (value kind : Int)
  | real (digits : String) (kind : Int)
  | logical (value : Bool) (kind : Int)
  | character (value : String) (kind : Int)
deriving DecidableEq, Repr

namespace Constant

/-- The kind of a constant. -/
def kind : Constant → Int
  | integer _ kind => kind
  | real _ kind => kind
  | logical _ kind => kind
  | character _ kind => kind

/-- The value of an integer constant. -/
def integer? : Constant → Option Int
  | integer value _ => some value
  | _ => none

/-- `s` with every quote `q` doubled. -/
def doubleQuotes (q : Char) : List Char → List Char
  | [] => []
  | c :: s => if c = q then q :: q :: doubleQuotes q s else c :: doubleQuotes q s

/-- The characters `s` between quotes `q`, with the quotes among them doubled. -/
def quote (q : Char) (s : List Char) : List Char := q :: doubleQuotes q s ++ [q]

/-- How a constant is written, without its kind. -/
def text : Constant → String
  | integer value _ => toString value
  | real digits _ => digits
  | logical true _ => ".TRUE."
  | logical false _ => ".FALSE."
  | character value _ => String.ofList (quote '\x27' value.toList)

end Constant

end FortranScope
