import FortranScope.Text.Case

/-!
# Places in the source

A `Position` is a byte offset in a file, a `Span` the half-open interval between two
offsets of one file, and a `Name` a word of the source with the span it was written at.
Spans of one file are ordered by `Span.Contains`; `Span.cover` is the least span that
contains two of them.
-/

namespace FortranScope

/-- A byte offset in a file. -/
structure Position where
  offset : Nat
  file : String
deriving DecidableEq, Repr, Inhabited

/-- The position of a message that belongs to no place of the source. -/
def Position.null : Position := ⟨0, "<null>"⟩

/-- The bytes of `file` from `start` up to but not including `stop`. -/
structure Span where
  file : String
  start : Nat
  stop : Nat
deriving DecidableEq, Repr, Inhabited

namespace Span

/-- The position where `s` begins. -/
def first (s : Span) : Position := ⟨s.start, s.file⟩

/-- `s.Contains t` when `t` lies in the file of `s` and neither begins before it nor
ends after it. -/
def Contains (s t : Span) : Prop :=
  s.file = t.file ∧ s.start ≤ t.start ∧ t.stop ≤ s.stop

instance (s t : Span) : Decidable (s.Contains t) :=
  inferInstanceAs (Decidable (s.file = t.file ∧ s.start ≤ t.start ∧ t.stop ≤ s.stop))

/-- `s` grown to the offsets of `t`.  The file stays that of `s`. -/
def cover (s t : Span) : Span :=
  ⟨s.file, min s.start t.start, max s.stop t.stop⟩

/-- The span from the beginning of `s` to the end of `t`. -/
def through (s t : Span) : Span := ⟨s.file, s.start, t.stop⟩

/-- `s` as a file name and its two offsets. -/
def text (s : Span) : String :=
  s.file ++ ":" ++ toString s.start ++ ".." ++ toString s.stop

theorem Contains.refl (s : Span) :
  s.Contains s
  := ⟨rfl, Nat.le_refl _, Nat.le_refl _⟩

theorem Contains.trans {s t u : Span} (hst : s.Contains t) (htu : t.Contains u) :
  s.Contains u
  := ⟨hst.1.trans htu.1, Nat.le_trans hst.2.1 htu.2.1, Nat.le_trans htu.2.2 hst.2.2⟩

/-- The cover of two spans contains the first of them, since it keeps the file of the first. -/
theorem cover_contains_left (s t : Span) :
  (s.cover t).Contains s
  := ⟨rfl, Nat.min_le_left _ _, Nat.le_max_left _ _⟩

end Span

/-- A word of the source: its text with the letter case folded, and where it stands. -/
structure Name where
  text : String
  span : Span
deriving DecidableEq, Repr, Inhabited

namespace Name

/-- The name spelled `spelling` at `span`. -/
def ofSpelling (spelling : String) (span : Span) : Name :=
  ⟨Text.foldCase spelling, span⟩

/-- The text of a name is its spelling in lower case. -/
@[simp]
theorem text_ofSpelling (spelling : String) (span : Span) :
  (ofSpelling spelling span).text = Text.foldCase spelling
  := rfl

/-- A name spans what its spelling was read from. -/
@[simp]
theorem span_ofSpelling (spelling : String) (span : Span) :
  (ofSpelling spelling span).span = span
  := rfl

end Name

end FortranScope
