import FortranScope.Proofs.Token.Lexeme
import FortranScope.Proofs.Token.Pattern

/-!
# Recognition

The lexemes of the language are given by a table of patterns.  Of the patterns that match the
beginning of a text the first one in the table is taken, and of its matches the preferred one.
`Lexeme.first?` finds exactly this lexeme without trying one pattern after another.
-/

namespace FortranScope

namespace Lexeme

/-! ## The table -/

/-- Digits, which the patterns of numbers begin with. -/
def digits : Pattern := .run Char.isDigit

/-- A point and digits. -/
def fraction : Pattern := .seq (.char '.') digits

/-- Whether `c` is the sign of an exponent. -/
def isSign (c : Char) : Bool := c = '+' || c = '-'

/-- A letter, a sign that may be missing, and digits. -/
def exponent : Pattern := .seq (.one isExponentLetter) (.seq (.optional (.one isSign)) digits)

/-- An underscore and word characters. -/
def kind : Pattern := .seq (.char '_') (.run isWordChar)

/-- What may stand between two quotes `q`: every quote in it is doubled. -/
def quotedText (q : Char) : Pattern :=
  .many (.either (.one (· ≠ q)) (.seq (.char q) (.char q)))

/-- The symbols and their kinds. -/
def symbols : List (String × TokenKind) :=
  [("**", .power), ("*", .star), ("//", .concat), ("/=", .notEquals), ("/", .slash),
    ("==", .equals), ("=", .assignment), ("<=", .lessEquals), ("<", .less),
    (">=", .greaterEquals), (">", .greater), ("+", .plus), ("-", .dash), ("(", .openParen),
    (")", .closeParen), (",", .comma), ("%", .percent)]

/-- The patterns of numbers. -/
def numbers : List (Shape × Pattern) :=
  [(.real, .seq digits (.seq fraction (.seq (.optional exponent) (.optional kind)))),
    (.real, .seq digits (.seq exponent (.optional kind))),
    (.integer, .seq digits (.optional kind))]

/-- The patterns of lexemes, each with the shape of the lexemes that it matches. -/
def patterns : List (Shape × Pattern) :=
  [(.skipped, .run Text.isBlank), (.skipped, .seq (.char '!') (.many (.one (· ≠ '\n'))))]
  ++ numbers
  ++ [(.word, .seq (.one Char.isAlpha) (.many (.one isWordChar))),
    (.dotted, .seq (.char '.') (.seq (.run Char.isAlpha) (.char '.'))),
    (.quoted, .seq (.char '\x27') (.seq (quotedText '\x27') (.char '\x27'))),
    (.quoted, .seq (.char '\x22') (.seq (quotedText '\x22') (.char '\x22')))]
  ++ symbols.map fun symbol => (.symbol symbol.2, .literal symbol.1.toList)

/-- The shape of the entry and what its preferred match leaves of a text. -/
def attempt (s : List Char) (entry : Shape × Pattern) : Option (Shape × List Char) :=
  (entry.2.match? s).map (entry.1, ·)

/-- The outcome of the first pattern that matches a text. -/
def best? (s : List Char) : Option (Shape × List Char) := patterns.findSome? (attempt s)

/-! ## Runs and optional parts -/

section

variable {p : Char → Bool} {a b : Pattern} {c : Char} {s : List Char}

/-- A run goes on as long as its characters do. -/
theorem runLength_cons (p : Char → Bool) (c : Char) (s : List Char) :
  runLength p (c :: s) = if p c then runLength p s + 1 else 0
  := by
  rw [runLength, List.takeWhile_cons]
  split <;> rfl

/-- What is left after a run begins with another character. -/
theorem drop_runLength (p : Char → Bool) (s : List Char) :
  s.drop (runLength p s) = s.dropWhile p
  := by
  induction s with
  | nil => rfl
  | cons c s ih =>
    rw [runLength_cons, List.dropWhile_cons]
    split
    · rw [List.drop_succ_cons, ih]
    · rfl

/-- A run is matched if its first character belongs to it. -/
theorem match?_run_cons (p : Char → Bool) (c : Char) (s : List Char) :
  (Pattern.run p).match? (c :: s) = if p c then some (s.drop (runLength p s)) else none
  := by
  rw [Pattern.run, Pattern.match?_seq_one_cons, Pattern.match?_many_one, drop_runLength]

/-- A character before a pattern is matched if it is that character. -/
theorem match?_seq_char_cons (d : Char) (b : Pattern) (c : Char) (s : List Char) :
  (Pattern.seq (.char d) b).match? (c :: s) = if c = d then b.match? s else none
  := by
  rw [Pattern.char, Pattern.match?_seq_one_cons]
  simp

/-- The pattern matches as many characters as `n` says, or not at all if this is none. -/
def Measures (a : Pattern) (n : List Char → Nat) : Prop :=
  ∀ s, a.match? s = if n s = 0 then none else some (s.drop (n s))

/-- The pattern of a run matches the run. -/
theorem measures_run (p : Char → Bool) :
  Measures (.run p) (runLength p)
  := by
  intro s
  cases s with
  | nil => apply Pattern.match?_seq_one_nil
  | cons c s =>
    rw [match?_run_cons, runLength_cons]
    split
    · rw [if_neg (Nat.succ_ne_zero _), List.drop_succ_cons]
    · rfl

/-- An optional part that is measured is matched, or has no length. -/
theorem Measures.optional {n : List Char → Nat} (h : Measures a n) (s : List Char) :
  (Pattern.optional a).match? s = some (s.drop (n s))
  := by
  rw [Pattern.match?_optional, h]
  split
  · next hn => rw [hn, List.drop_zero, Option.getD_none]
  · rfl

/-- A run before a pattern that does not begin with its characters takes all it can. -/
theorem match?_seq_run (hb : ∀ c s, p c → b.match? (c :: s) = none) (c : Char) (s : List Char) :
  (Pattern.seq (.run p) b).match? (c :: s)
    = if p c then b.match? (s.drop (runLength p s)) else none
  := by
  have hrests (c : Char) (s : List Char) (hc : p c) : b.rests (c :: s) = [] :=
    List.head?_eq_none_iff.mp (hb c s hc)
  rw [Pattern.run, Pattern.match?_seq_assoc, Pattern.match?_seq_one_cons, Pattern.match?,
    Pattern.rests_seq_many_one hrests, drop_runLength, Pattern.match?]

/-! ## Numbers -/

/-- The pattern of a kind matches what is measured as one. -/
theorem measures_kind :
  Measures kind kindLength
  := by
  intro s
  cases s with
  | nil => apply Pattern.match?_seq_one_nil
  | cons c s =>
    rw [kind, match?_seq_char_cons, measures_run]
    by_cases hc : c = '_'
    · rw [hc, kindLength]
      split <;> simp_all
    · rw [kindLength_of_ne hc, if_neg hc, if_pos rfl]

/-- The pattern of a fraction matches what is measured as one. -/
theorem measures_fraction :
  Measures fraction fractionLength
  := by
  intro s
  cases s with
  | nil => apply Pattern.match?_seq_one_nil
  | cons c s =>
    rw [fraction, match?_seq_char_cons, digits, measures_run]
    by_cases hc : c = '.'
    · rw [hc, fractionLength]
      split <;> simp_all
    · rw [fractionLength_of_ne hc, if_neg hc, if_pos rfl]

/-- A sign is no digit. -/
theorem isDigit_of_isSign (h : isSign c) :
  c.isDigit = false
  := by
  rcases Bool.or_eq_true_iff.mp h with h | h
  · rw [of_decide_eq_true h]
    rfl
  · rw [of_decide_eq_true h]
    rfl

/-- The sign of an exponent is not given up for its digits. -/
theorem measures_exponentDigits :
  Measures (.seq (.optional (.one isSign)) digits) exponentDigitsLength
  := by
  intro s
  cases s with
  | nil =>
    rw [Pattern.match?_seq_optional_nil, digits, measures_run]
    rfl
  | cons c s =>
    rw [Pattern.match?_seq_optional_cons, digits, measures_run, measures_run,
      exponentDigitsLength]
    have hsign : (c = '+' ∨ c = '-') ↔ isSign c = true := by simp [isSign]
    by_cases hc : isSign c = true
    · rw [if_pos hc, if_pos (hsign.mpr hc), runLength_cons, isDigit_of_isSign hc]
      split <;> rfl
    · rw [if_neg hc, if_neg fun h => hc (hsign.mp h)]

/-- The pattern of an exponent matches what is measured as one. -/
theorem measures_exponent :
  Measures exponent exponentLength
  := by
  intro s
  cases s with
  | nil => apply Pattern.match?_seq_one_nil
  | cons c s =>
    rw [exponent, Pattern.match?_seq_one_cons, measures_exponentDigits, exponentLength]
    split <;> split <;> simp_all

/-- What follows the digits and the fraction of a number may be missing. -/
theorem match?_suffix (s : List Char) :
  (Pattern.seq (.optional exponent) (.optional kind)).match? s
    = some (s.drop (exponentLength s + kindLength (s.drop (exponentLength s))))
  := by
  rw [Pattern.match?_seq, measures_exponent.optional, Option.bind_some, measures_kind.optional,
    List.drop_drop]
  intro t
  rw [measures_kind.optional]
  apply Option.some_ne_none

/-- After the digits of a number, exponent and kind may be left out. -/
theorem match?_suffix_ne_none (s : List Char) :
  (Pattern.seq (.optional exponent) (.optional kind)).match? s ≠ none
  := by
  rw [match?_suffix]
  apply Option.some_ne_none

/-- A digit is no exponent letter. -/
theorem isExponentLetter_of_isDigit (h : c.isDigit) :
  isExponentLetter c = false
  := by
  by_contra hletter
  simp only [isExponentLetter, Bool.or_eq_true, decide_eq_true_eq, Bool.not_eq_false] at hletter
  rcases hletter with ((rfl | rfl) | rfl) | rfl
  all_goals exact absurd h (by decide)

/-- A digit is no point. -/
theorem ne_point_of_isDigit (h : c.isDigit) :
  c ≠ '.'
  := by
  rintro rfl
  exact absurd h (by decide)

/-- A run is not matched where its first character does not belong to it. -/
theorem match?_seq_run_of_not (hc : p c = false) :
  (Pattern.seq (.run p) b).match? (c :: s) = none
  := by
  rw [Pattern.run, Pattern.match?_seq_assoc, Pattern.match?_seq_one_cons, hc,
    if_neg Bool.false_ne_true]

theorem findSome?_cons_eq_or {α β : Type} (f : α → Option β) (x : α) (xs : List α) :
  (x :: xs).findSome? f = (f x).or (xs.findSome? f)
  := by
  rw [List.findSome?_cons]
  cases f x <;> rfl

/-- Digits are followed by a fraction, or else by an exponent, or else by neither. -/
theorem findSome?_numbers (c : Char) (s : List Char) :
  numbers.findSome? (attempt (c :: s))
    = if c.isDigit then some ((number s).shape, s.drop (number s).more) else none
  := by
  have hkind (t : List Char) : (Pattern.optional kind).match? t ≠ none := by
    rw [measures_kind.optional]
    apply Option.some_ne_none
  have hfraction (d : Char) (t : List Char) (hd : d.isDigit) :
      (Pattern.seq fraction (.seq (.optional exponent) (.optional kind))).match? (d :: t)
        = none := by
    rw [fraction, Pattern.match?_seq_assoc, match?_seq_char_cons, if_neg (ne_point_of_isDigit hd)]
  have hexponent (d : Char) (t : List Char) (hd : d.isDigit) :
      (Pattern.seq exponent (.optional kind)).match? (d :: t) = none := by
    rw [exponent, Pattern.match?_seq_assoc, Pattern.match?_seq_one_cons,
      isExponentLetter_of_isDigit hd, if_neg Bool.false_ne_true]
  simp only [numbers, findSome?_cons_eq_or, List.findSome?_nil, attempt]
  by_cases hc : c.isDigit
  · have hdigits : digits.match? (c :: s) = some (s.drop (runLength Char.isDigit s)) := by
      rw [digits, measures_run, runLength_cons, if_pos hc, if_neg (Nat.succ_ne_zero _),
        List.drop_succ_cons]
    rw [digits, match?_seq_run hfraction, match?_seq_run hexponent, ← digits, if_pos hc,
      if_pos hc, if_pos hc, Pattern.match?_seq match?_suffix_ne_none, Pattern.match?_seq hkind,
      Pattern.match?_seq hkind, hdigits, measures_fraction, measures_exponent]
    by_cases hf : fractionLength (s.drop (runLength Char.isDigit s)) = 0
    · by_cases he : exponentLength (s.drop (runLength Char.isDigit s)) = 0
      · simp [number, hf, he, measures_kind.optional]
      · simp [number, hf, he, measures_kind.optional, Nat.add_assoc]
    · simp [number, hf, match?_suffix, Nat.add_assoc]
  · rw [Bool.not_eq_true] at hc
    simp only [digits, match?_seq_run_of_not hc, hc]
    rfl

/-! ## Dotted words and quoted text -/

/-- A character is matched where it comes next. -/
theorem match?_char (c : Char) (s : List Char) :
  (Pattern.char c).match? s = if s.head? = some c then some (s.drop 1) else none
  := by
  cases s with
  | nil =>
    simp [Pattern.match?, Pattern.char]
  | cons d s =>
    simp only [Pattern.match?, Pattern.char, Pattern.rests_one_cons, List.head?_cons,
      Option.some.injEq, decide_eq_true_eq]
    split <;> rfl

/-- A letter is no point. -/
theorem ne_point_of_isAlpha (h : c.isAlpha) :
  c ≠ '.'
  := by
  rintro rfl
  exact absurd h (by decide)

/-- Letters before a point are matched as a dotted word. -/
theorem match?_dotted (s : List Char) :
  ((Pattern.seq (.run Char.isAlpha) (.char '.')).match? s).map (Shape.dotted, ·)
    = (dotted? s).map fun lexeme => (lexeme.shape, s.drop lexeme.more)
  := by
  cases s with
  | nil =>
    rw [Pattern.run, Pattern.match?_seq_assoc, Pattern.match?_seq_one_nil]
    rfl
  | cons d s =>
    rw [match?_seq_run, match?_char, dotted?, runLength_cons]
    · by_cases hd : d.isAlpha
      · simp only [hd, if_true, Nat.succ_ne_zero, if_false, List.drop_succ_cons]
        split
        · rw [Option.map_some, List.drop_drop]
          rfl
        · rfl
      · simp [hd]
    · intro c t hc
      rw [match?_char, if_neg]
      simpa using ne_point_of_isAlpha hc

/-! ## Quoted text -/

section

variable (q : Char)

/-- In a quoted text any other character is passed. -/
theorem rests_quoted_cons_of_ne (hc : c ≠ q) (s : List Char) :
  (Pattern.seq (quotedText q) (.char q)).rests (c :: s)
    = (Pattern.seq (quotedText q) (.char q)).rests s
  := by
  rw [Pattern.rests_seq, quotedText, Pattern.rests_many]
  simp [Pattern.char, hc]

/-- In a quoted text two quotes are passed, or the first of them closes it. -/
theorem rests_quoted_pair (s : List Char) :
  (Pattern.seq (quotedText q) (.char q)).rests (q :: q :: s)
    = (Pattern.seq (quotedText q) (.char q)).rests s ++ [q :: s]
  := by
  rw [Pattern.rests_seq, quotedText, Pattern.rests_many]
  simp +arith [Pattern.char]

/-- A quote that none follows closes a quoted text. -/
theorem rests_quoted_close (h : s.head? ≠ some q) :
  (Pattern.seq (quotedText q) (.char q)).rests (q :: s) = [s]
  := by
  rw [Pattern.rests_seq, quotedText, Pattern.rests_many]
  cases s with
  | nil => simp [Pattern.char]
  | cons d s =>
    have hd : d ≠ q := by simpa using h
    simp [Pattern.char, hd]

/-- The quote that closes is the last one that can, as pairs of quotes are tried first. -/
theorem match?_quoted (s : List Char) :
  (Pattern.seq (quotedText q) (.char q)).match? s = (closingLength? q s).map s.drop
  := by
  have hnil : (Pattern.seq (quotedText q) (.char q)).match? [] = none := by
    rw [Pattern.match?, Pattern.rests_seq, quotedText, Pattern.rests_many]
    simp [Pattern.char]
  induction s using closingLength?.induct q with
  | case1 => apply hnil
  | case2 =>
    rw [Pattern.match?, rests_quoted_close q (by simp), closingLength?, if_pos rfl]
    rfl
  | case3 c hc =>
    rw [Pattern.match?, rests_quoted_cons_of_ne q hc, ← Pattern.match?, hnil, closingLength?,
      if_neg hc, Option.map_none]
  | case4 s n hn ih =>
    rw [Pattern.match?, rests_quoted_pair, List.head?_append, ← Pattern.match?, ih, closingLength?,
      if_pos rfl, if_pos rfl, hn]
    rfl
  | case5 s hn ih =>
    rw [Pattern.match?, rests_quoted_pair, List.head?_append, ← Pattern.match?, ih, closingLength?,
      if_pos rfl, if_pos rfl, hn]
    rfl
  | case6 d s hd =>
    rw [Pattern.match?, rests_quoted_close q (by simpa using hd), closingLength?, if_pos rfl,
      if_neg hd]
    rfl
  | case7 c d s hc ih =>
    rw [Pattern.match?, rests_quoted_cons_of_ne q hc, ← Pattern.match?, ih, closingLength?,
      if_neg hc, Option.map_map]
    rfl

end

/-! ## Symbols -/

/-- A symbol of two characters comes before the one that it begins with. -/
theorem findSome?_symbols (c : Char) (s : List Char) :
  (symbols.map fun symbol => (Shape.symbol symbol.2, Pattern.literal symbol.1.toList)).findSome?
      (attempt (c :: s))
    = (symbol? c s).map fun m => (.symbol m.1, s.drop m.2)
  := by
  simp only [List.findSome?_map, Function.comp_def, attempt, symbols, findSome?_cons_eq_or,
    List.findSome?_nil, String.reduceToList, Pattern.match?_literal_cons_cons]
  symm
  unfold symbol?
  split
  all_goals
    cases s <;> simp_all [Pattern.match?_literal_cons_cons, Pattern.match?_literal_cons_nil,
      Pattern.match?_literal_nil]

/-! ## The first lexeme of a text -/

/-- The lexeme that a text begins with is the one that the table of patterns gives. -/
theorem best?_eq (c : Char) (s : List Char) :
  best? (c :: s) = (first? c s).map fun lexeme => (lexeme.shape, s.drop lexeme.more)
  := by
  rw [best?, patterns, List.findSome?_append, List.findSome?_append, List.findSome?_append,
    findSome?_symbols, findSome?_numbers]
  simp only [findSome?_cons_eq_or, List.findSome?_nil, attempt, match?_run_cons,
    match?_seq_char_cons, Pattern.match?_seq_one_cons, Pattern.match?_many_one, ← drop_runLength,
    match?_quoted]
  rw [first?]
  by_cases hblank : Text.isBlank c
  · simp [hblank]
  rw [if_neg hblank, if_neg hblank, Option.map_none, Option.none_or]
  by_cases hcomment : c = '!'
  · simp [hcomment]
  by_cases hdigit : c.isDigit
  · simp [hcomment, hdigit]
  by_cases halpha : c.isAlpha
  · simp [hcomment, hdigit, halpha]
  by_cases hpoint : c = '.'
  · simp [hpoint, match?_dotted, symbol?]
  by_cases hsingle : c = '\x27'
  · simp [hsingle, symbol?, Function.comp_def]
  by_cases hdouble : c = '\x22'
  · simp [hdouble, symbol?, Function.comp_def]
  · simp [hcomment, hdigit, halpha, hpoint, hsingle, hdouble, Function.comp_def]

end

end Lexeme

end FortranScope
