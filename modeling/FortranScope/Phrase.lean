import FortranScope.Operator
import FortranScope.Source

/-!
# Phrases

A `Phrase` is an expression as it is written, before its names mean anything: literals
keep their text and their kind suffix, and a word followed by arguments may be a function
reference or an array element.  `Phrase.span` is the part of the source a phrase was
written in.
-/

namespace FortranScope

/-- An operator before its operand: an intrinsic one, or a dotted word that the program
defines. -/
inductive PrefixOperator where
  | intrinsic (operator : UnaryOperator)
  | defined (word : String)
deriving DecidableEq, Repr

/-- An operator between its operands: an intrinsic one, or a dotted word that the program
defines. -/
inductive InfixOperator where
  | intrinsic (operator : BinaryOperator)
  | defined (word : String)
deriving DecidableEq, Repr

mutual

/-- An expression as written.  The span of a literal, a reference, a parenthesis and a
prefix expression is stored; that of every other phrase follows from its parts. -/
inductive Phrase where
  | integer (value : Int) (kind : Option String) (span : Span)
  | real (digits : String) (kind : Option String) (span : Span)
  | character (value : String) (span : Span)
  | logical (value : Bool) (span : Span)
  | designator (name : Name)
  | component (base : Phrase) (component : Name)
  | reference (callee : Name) (args : Phrase.ArgList) (span : Span)
  | parentheses (inner : Phrase) (span : Span)
  | unary (operator : PrefixOperator) (operand : Phrase) (span : Span)
  | binary (operator : InfixOperator) (left right : Phrase)
deriving DecidableEq

/-- The arguments of a reference, each with the keyword before it, if there is one. -/
inductive Phrase.ArgList where
  | nil
  | cons (keyword : Option Name) (value : Phrase) (rest : Phrase.ArgList)
deriving DecidableEq

end

namespace Phrase

/-- Where `p` is written. -/
def span : Phrase → Span
  | integer _ _ span => span
  | real _ _ span => span
  | character _ span => span
  | logical _ span => span
  | designator name => name.span
  | component base name => base.span.through name.span
  | reference _ _ span => span
  | parentheses _ span => span
  | unary _ _ span => span
  | binary _ left right => left.span.through right.span

/-- The arguments as a list of pairs. -/
def ArgList.toList : ArgList → List (Option Name × Phrase)
  | nil => []
  | cons keyword value rest => (keyword, value) :: rest.toList

/-- The arguments with the given pairs. -/
def ArgList.ofList : List (Option Name × Phrase) → ArgList
  | [] => nil
  | arg :: rest => cons arg.1 arg.2 (ofList rest)

/-- Arguments built from a list of pairs have these pairs, in the same order. -/
@[simp]
theorem ArgList.toList_ofList (args : List (Option Name × Phrase)) :
  (ofList args).toList = args
  := by
  induction args with
  | nil => rfl
  | cons arg rest ih => rw [ofList, toList, ih]

end Phrase

end FortranScope
