/-!
# Blanks

`isBlank` holds of the characters with the Unicode property White_Space: the blanks
that separate lexemes and that are dropped around an operator spelling.
-/

namespace FortranScope.Text

/-- The code points with the property White_Space, as closed intervals in increasing
order. -/
def blankRanges : List (Nat × Nat) :=
  [(0x09, 0x0D), (0x20, 0x20), (0x85, 0x85), (0xA0, 0xA0), (0x1680, 0x1680),
    (0x2000, 0x200A), (0x2028, 0x2029), (0x202F, 0x202F), (0x205F, 0x205F),
    (0x3000, 0x3000)]

/-- Whether `c` has the property White_Space. -/
def isBlank (c : Char) : Bool :=
  blankRanges.any fun r => r.1 ≤ c.toNat && c.toNat ≤ r.2

/-- `s` without the blanks at its two ends. -/
def trimChars (s : List Char) : List Char :=
  ((s.dropWhile isBlank).reverse.dropWhile isBlank).reverse

/-- The text `s` without the blanks at its two ends. -/
def trim (s : String) : String := String.ofList (trimChars s.toList)

end FortranScope.Text
