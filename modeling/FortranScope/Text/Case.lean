/-!
# Letter case

Names, keywords and dotted words of the language are written in either case of the
ASCII letters.  `foldChars` and `foldCase` turn the capital letters among `A` to `Z`
into small ones and keep every other character, so two spellings denote the same
word exactly when they fold to the same text.
-/

namespace FortranScope.Text

/-- `s` with its ASCII capital letters made small. -/
def foldChars (s : List Char) : List Char := s.map Char.toLower

/-- The text `s` with its ASCII capital letters made small. -/
def foldCase (s : String) : String := String.ofList (foldChars s.toList)

@[simp]
theorem foldChars_nil : foldChars [] = [] := rfl

@[simp]
theorem foldChars_cons (c : Char) (s : List Char) :
  foldChars (c :: s) = c.toLower :: foldChars s
  := rfl

/-- Folding two texts one after the other folds each of them. -/
@[simp]
theorem foldChars_append (s t : List Char) :
  foldChars (s ++ t) = foldChars s ++ foldChars t
  := List.map_append

/-- Folding the case of a text keeps its number of characters. -/
@[simp]
theorem length_foldChars (s : List Char) :
  (foldChars s).length = s.length
  := List.length_map _

/-- The characters of a folded string are the folded characters of the string. -/
@[simp]
theorem toList_foldCase (s : String) :
  (foldCase s).toList = foldChars s.toList
  := String.toList_ofList

end FortranScope.Text
