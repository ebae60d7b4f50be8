import FortranScope.Constant
import FortranScope.Token.Lexeme
import Mathlib.Data.List.TakeWhile

/-!
# Where lexemes end

A lexeme ends where the characters after it cannot belong to it.  `Lexeme.Stops` says so of
the text after a word, a number or quoted text, and `Lexeme.Opens` of the text after a symbol.
-/

namespace FortranScope

namespace Lexeme

/-! ## Where lexemes end -/

/-- No word, number or quoted text that stands before `s` goes on in `s`. -/
def Stops : List Char → Prop
  | [] => True
  | c :: s =>
    isWordChar c = false ∧ c ≠ '\x27' ∧ (c = '.' → ∀ d ∈ s.head?, d.isDigit = false)

/-- No symbol that stands before `s` goes on in `s`. -/
def Opens (s : List Char) : Prop := ∀ c ∈ s.head?, c ≠ '*' ∧ c ≠ '/' ∧ c ≠ '='

variable {c : Char} {s rest : List Char}

namespace Stops

variable (h : Stops rest)

include h

/-- What stops a lexeme does not go on with a word. -/
theorem isWordChar_head (hc : c ∈ rest.head?) :
  isWordChar c = false
  := by
  cases rest with
  | nil => cases hc
  | cons d s =>
    obtain rfl := Option.some.inj hc
    apply h.1

/-- What stops a lexeme does not go on with a number. -/
theorem isDigit_head (hc : c ∈ rest.head?) :
  c.isDigit = false
  := by
  have hword := h.isWordChar_head hc
  simp only [isWordChar, Char.isAlphanum, Bool.or_eq_false_iff] at hword
  apply hword.1.2

/-- What stops a lexeme does not go on with a character literal. -/
theorem ne_quote_head (hc : c ∈ rest.head?) :
  c ≠ '\x27'
  := by
  cases rest with
  | nil => cases hc
  | cons d s =>
    obtain rfl := Option.some.inj hc
    apply h.2.1

end Stops

/-- A run ends at a character that does not belong to it. -/
theorem runLength_append {p : Char → Bool} (h : ∀ c ∈ rest.head?, p c = false) :
  runLength p (s ++ rest) = runLength p s
  := by
  have hrest : rest.takeWhile p = [] := by
    cases rest with
    | nil => rfl
    | cons c rest =>
      apply List.takeWhile_cons_of_neg
      simp [h c rfl]
  rw [runLength, runLength, List.takeWhile_append, hrest, List.append_nil]
  split
  · next hlength => exact hlength.symm
  · rfl

/-- A run over characters that all belong to it is the whole text. -/
theorem runLength_eq_length {p : Char → Bool} (h : ∀ c ∈ s, p c) :
  runLength p s = s.length
  := by
  rw [runLength, List.takeWhile_eq_self_iff.mpr h]

/-! ## How lexemes begin -/

/-- Letters are alphanumeric. -/
theorem isAlphanum_of_isAlpha (h : c.isAlpha) :
  c.isAlphanum
  := by
  change (c.isAlpha || c.isDigit) = true
  rw [h, Bool.true_or]

/-- Digits are alphanumeric. -/
theorem isAlphanum_of_isDigit (h : c.isDigit) :
  c.isAlphanum
  := by
  change (c.isAlpha || c.isDigit) = true
  rw [h, Bool.or_true]

/-- Small letters are letters. -/
theorem isAlpha_of_isLower (h : c.isLower) :
  c.isAlpha
  := by
  change (c.isUpper || c.isLower) = true
  rw [h, Bool.or_true]

/-- Small letters are no digits. -/
theorem isDigit_of_isLower (h : c.isLower) :
  c.isDigit = false
  := by
  by_contra hdigit
  have hlower : 'a'.val ≤ c.val := of_decide_eq_true (Bool.and_eq_true_iff.mp h).1
  have hupper : c.val ≤ '9'.val :=
    of_decide_eq_true (Bool.and_eq_true_iff.mp (eq_true_of_ne_false hdigit)).2
  exact absurd (UInt32.le_trans hlower hupper) (by decide)

/-- Alphanumeric characters are characters of ASCII. -/
theorem isAscii_of_isAlphanum (h : c.isAlphanum) :
  c.toNat < 128
  := by
  have hlast {d : Char} (hd : d.val.toNat < 128) (hle : c.val ≤ d.val) : c.toNat < 128 :=
    Nat.lt_of_le_of_lt (UInt32.le_iff_toNat_le.mp hle) hd
  rcases Bool.or_eq_true_iff.mp h with hletter | hdigit
  · rcases Bool.or_eq_true_iff.mp hletter with hupper | hlower
    · apply hlast (d := 'Z') (by decide) (of_decide_eq_true hupper).2
    · apply hlast (d := 'z') (by decide) (of_decide_eq_true (Bool.and_eq_true_iff.mp hlower).2)
  · apply hlast (d := '9') (by decide) (of_decide_eq_true (Bool.and_eq_true_iff.mp hdigit).2)

/-- A letter or digit begins neither a blank run nor a comment. -/
theorem notSkipped_of_isAlphanum (h : c.isAlphanum) :
  Text.isBlank c = false ∧ c ≠ '!'
  := by
  have hall : ∀ n < 128, (Char.ofNat n).isAlphanum →
      Text.isBlank (Char.ofNat n) = false ∧ Char.ofNat n ≠ '!' := by
    decide +kernel
  have hc := hall c.toNat (isAscii_of_isAlphanum h)
  rw [Char.ofNat_toNat] at hc
  apply hc h

/-- A lexeme that begins with a digit is a number. -/
theorem first?_of_isDigit (h : c.isDigit) :
  first? c s = some (number s)
  := by
  obtain ⟨hblank, hcomment⟩ := notSkipped_of_isAlphanum (isAlphanum_of_isDigit h)
  rw [first?, hblank, if_neg Bool.false_ne_true, if_neg hcomment, if_pos h]

/-- A lexeme that begins with a letter is a word. -/
theorem first?_of_isAlpha (h : c.isAlpha) (hdigit : c.isDigit = false) :
  first? c s = some ⟨.word, runLength isWordChar s⟩
  := by
  obtain ⟨hblank, hcomment⟩ := notSkipped_of_isAlphanum (isAlphanum_of_isAlpha h)
  rw [first?, hblank, if_neg Bool.false_ne_true, if_neg hcomment, hdigit,
    if_neg Bool.false_ne_true, if_pos h]

/-! ## Numbers -/

/-- A fraction begins with a point. -/
theorem fractionLength_of_ne (h : c ≠ '.') :
  fractionLength (c :: s) = 0
  := by
  unfold fractionLength
  split
  · next heq => cases h (List.cons.inj heq).1
  · rfl

/-- What stops a lexeme is no fraction. -/
theorem Stops.fractionLength_eq_zero (h : Stops rest) :
  fractionLength rest = 0
  := by
  cases rest with
  | nil => rfl
  | cons c rest =>
    by_cases hc : c = '.'
    · have hrun := runLength_append (s := []) (h.2.2 hc)
      rw [List.nil_append] at hrun
      rw [hc, fractionLength, hrun]
      rfl
    · apply fractionLength_of_ne hc

/-- What stops a lexeme does not lengthen a fraction. -/
theorem Stops.fractionLength_append (h : Stops rest) :
  fractionLength (s ++ rest) = fractionLength s
  := by
  cases s with
  | nil => apply h.fractionLength_eq_zero
  | cons c s =>
    by_cases hc : c = '.'
    · have hrun : runLength Char.isDigit (s ++ rest) = runLength Char.isDigit s :=
        runLength_append fun d hd => h.isDigit_head hd
      rw [hc, List.cons_append, fractionLength, fractionLength, hrun]
    · rw [List.cons_append, fractionLength_of_ne hc, fractionLength_of_ne hc]

/-- What stops a lexeme is no exponent. -/
theorem Stops.exponentLength_eq_zero (h : Stops rest) :
  exponentLength rest = 0
  := by
  cases rest with
  | nil => rfl
  | cons c rest =>
    rw [exponentLength, if_neg]
    intro hletter
    have hword := h.isWordChar_head rfl
    simp only [isExponentLetter, Bool.or_eq_true, decide_eq_true_eq] at hletter
    rcases hletter with ((rfl | rfl) | rfl) | rfl
    all_goals exact absurd hword (by decide)

/-- What stops a lexeme does not lengthen the digits of an exponent. -/
theorem Stops.exponentDigitsLength_append (h : Stops rest) (hs : s ≠ []) :
  exponentDigitsLength (s ++ rest) = exponentDigitsLength s
  := by
  have hrun (t : List Char) : runLength Char.isDigit (t ++ rest) = runLength Char.isDigit t :=
    runLength_append fun d hd => h.isDigit_head hd
  cases s with
  | nil => cases hs rfl
  | cons c s =>
    rw [List.cons_append, exponentDigitsLength, exponentDigitsLength, hrun, ← List.cons_append,
      hrun]

/-- An exponent ends where the number ends, if it has any digits. -/
theorem Stops.exponentLength_append (h : Stops rest) (hs : s = [] ∨ exponentLength s ≠ 0) :
  exponentLength (s ++ rest) = exponentLength s
  := by
  rcases hs with rfl | hs
  · apply h.exponentLength_eq_zero
  · cases s with
    | nil => cases hs rfl
    | cons c s =>
      have hne : s ≠ [] := by
        rintro rfl
        apply hs
        simp [exponentLength, exponentDigitsLength]
      rw [List.cons_append, exponentLength, exponentLength, h.exponentDigitsLength_append hne]

/-- A kind begins with an underscore. -/
theorem kindLength_of_ne (h : c ≠ '_') :
  kindLength (c :: s) = 0
  := by
  unfold kindLength
  split
  · next heq => cases h (List.cons.inj heq).1
  · rfl

/-- Where there is no underscore, there is no kind. -/
theorem kindLength_of_notMem (h : '_' ∉ s) :
  kindLength s = 0
  := by
  cases s with
  | nil => rfl
  | cons c s =>
    apply kindLength_of_ne
    rintro rfl
    apply h List.mem_cons_self

/-- What stops a lexeme is no kind. -/
theorem Stops.kindLength_eq_zero (h : Stops rest) :
  kindLength rest = 0
  := by
  cases rest with
  | nil => rfl
  | cons c rest =>
    apply kindLength_of_ne
    rintro rfl
    exact absurd (h.isWordChar_head rfl) (by decide)

/-- A number without a kind ends where its characters end. -/
theorem Stops.number_append (h : Stops rest) (hkind : '_' ∉ s)
    (hwhole : (number s).more = s.length) :
  number (s ++ rest) = number s
  := by
  -- Without a kind all of `s` is digits, a fraction and an exponent.  If there were a letter
  -- left at its end, `rest` might make an exponent of it, as in `1e` before `+3`.
  have hdigits : runLength Char.isDigit (s ++ rest) = runLength Char.isDigit s :=
    runLength_append fun c hc => h.isDigit_head hc
  have hnoKind (n : Nat) : kindLength (s.drop n) = 0 :=
    kindLength_of_notMem fun hmem => hkind (List.mem_of_mem_drop hmem)
  simp only [number, hnoKind, Nat.add_zero] at hwhole
  simp only [number, hdigits, hnoKind]
  rw [List.drop_append_of_le_length (by omega), h.fractionLength_append,
    List.drop_append_of_le_length (by omega), h.exponentLength_append]
  · rw [hwhole, List.drop_left, h.kindLength_eq_zero]
  · rw [List.drop_eq_nil_iff]
    omega

/-- Digits by themselves are an integer. -/
theorem number_digits (hs : ∀ c ∈ s, c.isDigit) :
  number s = ⟨.integer, s.length⟩
  := by
  have hdigits : runLength Char.isDigit s = s.length := runLength_eq_length hs
  simp [number, hdigits, fractionLength, exponentLength, kindLength]

/-! ## Quoted text -/

/-- A character that is no quote is passed on the way to the closing quote. -/
theorem closingLength?_cons_of_ne {q : Char} (hc : c ≠ q) (hs : s ≠ []) :
  closingLength? q (c :: s) = (closingLength? q s).map (· + 1)
  := by
  cases s with
  | nil => cases hs rfl
  | cons d s => rw [closingLength?, if_neg hc]

/-- A quote that none follows closes a character literal. -/
theorem closingLength?_close {q : Char} (h : ∀ c ∈ rest.head?, c ≠ q) :
  closingLength? q (q :: rest) = some 1
  := by
  cases rest with
  | nil => rw [closingLength?, if_pos rfl]
  | cons d rest => rw [closingLength?, if_pos rfl, if_neg (h d rfl)]

/-- Quotes that are doubled do not close a text. -/
theorem closingLength?_doubleQuotes {q : Char} (h : ∀ c ∈ rest.head?, c ≠ q) :
  closingLength? q (Constant.doubleQuotes q s ++ q :: rest)
    = some ((Constant.doubleQuotes q s).length + 1)
  := by
  induction s with
  | nil => apply closingLength?_close h
  | cons c s ih =>
    by_cases hc : c = q
    · rw [Constant.doubleQuotes, if_pos hc, List.cons_append, List.cons_append, closingLength?,
        if_pos rfl, if_pos rfl, ih]
      rfl
    · rw [Constant.doubleQuotes, if_neg hc, List.cons_append, closingLength?_cons_of_ne hc, ih]
      · rfl
      · simp

/-! ## Symbols -/

/-- A symbol of one character stands alone if no symbol goes on after it. -/
theorem Opens.symbol?_eq (h : Opens rest) {kind : TokenKind}
    (hc : symbol? c [] = some (kind, 0)) :
  symbol? c rest = some (kind, 0)
  := by
  cases rest with
  | nil => apply hc
  | cons d rest =>
    obtain ⟨hstar, hslash, hequals⟩ := h d rfl
    rw [← hc]
    unfold symbol?
    split
    all_goals simp_all

end Lexeme

/-- Characters that are no quotes are left as they are. -/
theorem halveQuotes_cons_of_ne {q c : Char} {s : List Char} (hc : c ≠ q) :
  halveQuotes q (c :: s) = c :: halveQuotes q s
  := by
  cases s with
  | nil => rfl
  | cons d s => rw [halveQuotes, if_neg fun h => hc h.1]

/-- Doubled quotes stand for one. -/
theorem halveQuotes_doubleQuotes {q : Char} {s : List Char} :
  halveQuotes q (Constant.doubleQuotes q s) = s
  := by
  induction s with
  | nil => rfl
  | cons c s ih =>
    by_cases hc : c = q
    · rw [Constant.doubleQuotes, if_pos hc, halveQuotes, if_pos ⟨rfl, rfl⟩, ih, hc]
    · rw [Constant.doubleQuotes, if_neg hc, halveQuotes_cons_of_ne hc, ih]

/-! ## Names and numbers -/

/-- Whether `c` may stand in a name in small letters. -/
def isNameChar (c : Char) : Bool := c.isLower || c.isDigit || c = '_'

/-- The characters of a name in small letters. -/
def IsName : List Char → Prop
  | [] => False
  | c :: s => c.isLower ∧ s.all isNameChar

/-- The characters of a real literal in small letters that shows no kind. -/
def IsReal : List Char → Prop
  | [] => False
  | c :: s =>
    Lexeme.first? c s = some ⟨.real, s.length⟩ ∧ '_' ∉ c :: s
      ∧ Text.foldChars (c :: s) = c :: s

instance : (s : List Char) → Decidable (IsName s)
  | [] => inferInstanceAs (Decidable False)
  | c :: s => inferInstanceAs (Decidable (c.isLower ∧ s.all isNameChar))

instance : (s : List Char) → Decidable (IsReal s)
  | [] => inferInstanceAs (Decidable False)
  | c :: s => inferInstanceAs (Decidable (Lexeme.first? c s = some ⟨.real, s.length⟩
      ∧ '_' ∉ c :: s ∧ Text.foldChars (c :: s) = c :: s))

/-- Digits may be in a name. -/
theorem isNameChar_of_isDigit {c : Char} (h : c.isDigit) :
  isNameChar c
  := by
  simp [isNameChar, h]

/-- Small letters may be in a name. -/
theorem isNameChar_of_isLower {c : Char} (h : c.isLower) :
  isNameChar c
  := by
  simp [isNameChar, h]

/-- Case makes no difference to the characters of a name in small letters. -/
theorem isWordChar_and_toLower {c : Char} (h : isNameChar c) :
  Lexeme.isWordChar c ∧ c.toLower = c
  := by
  have hall : ∀ n < 128, isNameChar (Char.ofNat n) →
      Lexeme.isWordChar (Char.ofNat n) ∧ (Char.ofNat n).toLower = Char.ofNat n := by
    decide +kernel
  have hascii : c.toNat < 128 := by
    simp only [isNameChar, Bool.or_eq_true, decide_eq_true_eq] at h
    rcases h with (hlower | hdigit) | rfl
    · apply Lexeme.isAscii_of_isAlphanum
      apply Lexeme.isAlphanum_of_isAlpha (Lexeme.isAlpha_of_isLower hlower)
    · apply Lexeme.isAscii_of_isAlphanum (Lexeme.isAlphanum_of_isDigit hdigit)
    · decide
  have hc := hall c.toNat hascii
  rw [Char.ofNat_toNat] at hc
  apply hc h

/-- What names consist of is folded to itself. -/
theorem foldChars_eq_self {s : List Char} (h : ∀ c ∈ s, isNameChar c) :
  Text.foldChars s = s
  := by
  rw [Text.foldChars, List.map_congr_left fun c hc => (isWordChar_and_toLower (h c hc)).2,
    List.map_id']

/-- A name consists of what names consist of. -/
theorem IsName.isNameChar {s : List Char} (h : IsName s) :
  ∀ c ∈ s, isNameChar c
  := by
  cases s with
  | nil => cases h
  | cons c s =>
    exact List.forall_mem_cons.mpr ⟨isNameChar_of_isLower h.1, List.all_eq_true.mp h.2⟩

/-- A name is folded to itself. -/
theorem IsName.foldCase_eq {s : String} (h : IsName s.toList) :
  Text.foldCase s = s
  := by
  rw [Text.foldCase, foldChars_eq_self h.isNameChar, String.ofList_toList]

/-- The digits of a real literal have no underscore. -/
theorem IsReal.underscore_notMem {s : List Char} (h : IsReal s) :
  '_' ∉ s
  := by
  cases s with
  | nil => cases h
  | cons c s => apply h.2.1

/-- A name is not empty. -/
theorem IsName.ne_nil {s : List Char} (h : IsName s) :
  s ≠ []
  := by
  rintro rfl
  cases h

/-- A real literal is not empty. -/
theorem IsReal.ne_nil {s : List Char} (h : IsReal s) :
  s ≠ []
  := by
  rintro rfl
  cases h

/-- A real literal begins with a digit. -/
theorem isDigit_of_first?_eq_real {c : Char} {s : List Char} {n : Nat}
    (h : Lexeme.first? c s = some ⟨.real, n⟩) :
  c.isDigit
  := by
  unfold Lexeme.first? at h
  split at h
  · cases h
  split at h
  · cases h
  split at h
  · next hdigit => exact hdigit
  split at h
  · cases h
  split at h
  · rw [Lexeme.dotted?] at h
    split at h
    · cases h
    split at h
    · cases h
    · cases h
  split at h
  · obtain ⟨m, -, hm⟩ := Option.map_eq_some_iff.mp h
    cases hm
  · obtain ⟨m, -, hm⟩ := Option.map_eq_some_iff.mp h
    cases hm

end FortranScope
