/-!
# Ranges of integers

Values of the language are integers of 64 bits, kinds are integers of 32 bits.
`Integer.Fits w n` says that `n` is an integer of the width `w`, and `Integer.ofText?`
reads one that is written in decimal digits.
-/

namespace FortranScope.Integer

/-- The widths of integers: that of a value and that of a kind. -/
inductive Width where
  | value
  | kind
deriving DecidableEq, Repr

namespace Width

/-- The number of bits of an integer. -/
def bits : Width → Nat
  | value => 64
  | kind => 32

/-- The least number above the integers of the width. -/
def limit : Width → Int
  | value => 9223372036854775808
  | kind => 2147483648

/-- The limit of every width is positive, so every width holds zero. -/
theorem limit_pos (w : Width) :
  0 < w.limit
  := by
  cases w <;> decide

end Width

/-- `n` lies in the range of the integers of the width, of which one more is negative than
positive. -/
def Fits (w : Width) (n : Int) : Prop := -w.limit ≤ n ∧ n < w.limit

instance (w : Width) (n : Int) : Decidable (Fits w n) :=
  inferInstanceAs (Decidable (-w.limit ≤ n ∧ n < w.limit))

/-- The number that the characters `s` write in decimal, if there are any and all of them
are digits. -/
def magnitude? (s : List Char) : Option Nat :=
  if s ≠ [] ∧ s.all Char.isDigit then some (Nat.ofDigitChars 10 s 0) else none

/-- The integer that the characters `s` write: digits, after at most one sign. -/
def ofChars? : List Char → Option Int
  | '+' :: s => (magnitude? s).map Int.ofNat
  | '-' :: s => (magnitude? s).map fun n => -(n : Int)
  | s => (magnitude? s).map Int.ofNat

/-- The integer of the given width that the text `s` writes. -/
def ofText? (w : Width) (s : String) : Option Int :=
  (ofChars? s.toList).filter fun n => Fits w n

/-- What is read from a text at a width fits the width. -/
theorem fits_of_ofText? {w : Width} {s : String} {n : Int} (h : ofText? w s = some n) :
  Fits w n
  := by
  rw [ofText?, Option.filter_eq_some_iff] at h
  apply of_decide_eq_true h.2

end FortranScope.Integer
