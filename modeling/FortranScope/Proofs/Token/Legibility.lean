import FortranScope.Phrase.Literal
import FortranScope.Proofs.Token.Partition

/-!
# Legible tokens

A token that is cut from text has a value that can be written and cut again: a word is a name in
small letters, and a real number without its kind is a real number.  The parts of a number are
measured by functions of the text, and `Lexeme.Segment` says that these do not change if letters
are made small or if what follows the part is left out.  So a number without its kind measures
the same in small letters.
-/

namespace FortranScope

namespace Lexeme

/-! ## Letter case -/

/-- Only letters of ASCII have another case. -/
theorem toLower_eq_self {c : Char} (h : 128 ≤ c.toNat) :
  c.toLower = c
  := by
  have hupper : ¬ (c.val ≥ 'A'.val ∧ c.val ≤ 'Z'.val) := by
    rintro ⟨-, hle⟩
    have hnat : c.toNat ≤ 90 := UInt32.le_iff_toNat_le.mp hle
    omega
  apply dif_neg hupper

/-- What holds of the characters of ASCII, tried one by one, holds of each of them. -/
theorem of_ascii {P : Char → Prop} (h : ∀ n < 128, P (Char.ofNat n)) {c : Char}
    (hc : c.toNat < 128) :
  P c
  := by
  have hn := h c.toNat hc
  rwa [Char.ofNat_toNat] at hn

/-- A folded character is folded to itself. -/
theorem toLower_toLower (c : Char) :
  c.toLower.toLower = c.toLower
  := by
  by_cases hascii : c.toNat < 128
  · apply of_ascii (P := fun c => c.toLower.toLower = c.toLower) (by decide +kernel) hascii
  · rw [toLower_eq_self (Nat.le_of_not_lt hascii), toLower_eq_self (Nat.le_of_not_lt hascii)]

/-- Letter case makes no difference to the property of characters. -/
def Caseless (p : Char → Bool) : Prop := ∀ c : Char, p c.toLower = p c

/-- It is enough to look at the characters of ASCII. -/
theorem caseless_of_ascii {p : Char → Bool}
    (h : ∀ n < 128, p (Char.ofNat n).toLower = p (Char.ofNat n)) :
  Caseless p
  := by
  intro c
  by_cases hascii : c.toNat < 128
  · apply of_ascii (P := fun c => p c.toLower = p c) h hascii
  · rw [toLower_eq_self (Nat.le_of_not_lt hascii)]

/-- Letter case makes no difference to which characters are `c`, unless `c` is a letter. -/
theorem caseless_of_isAlpha_eq_false {c : Char} (h : c.isAlpha = false) :
  Caseless (· = c)
  := by
  have hascii : ∀ n < 128, (Char.ofNat n).toLower = Char.ofNat n
      ∨ (Char.ofNat n).isAlpha = true ∧ (Char.ofNat n).toLower.isAlpha = true := by
    decide +kernel
  have hne {c' : Char} (hc' : c'.isAlpha = true) : c' ≠ c := by
    rintro rfl
    exact Bool.false_ne_true (h.symm.trans hc')
  apply caseless_of_ascii
  intro n hn
  rcases hascii n hn with heq | ⟨hletter, hsmall⟩
  · rw [heq]
  · rw [decide_eq_false (hne hletter), decide_eq_false (hne hsmall)]

theorem caseless_underscore : Caseless (· = '_') := caseless_of_isAlpha_eq_false rfl

theorem caseless_isDigit : Caseless Char.isDigit := caseless_of_ascii (by decide +kernel)

theorem caseless_isExponentLetter : Caseless isExponentLetter :=
  caseless_of_ascii (by decide +kernel)

/-! ## Segments -/

/-- The function measures how much of a text belongs to a part of a number in which there is no
underscore. -/
structure Segment (f : List Char → Nat) : Prop where
  le_length : ∀ s : List Char, f s ≤ s.length
  notMem : ∀ s : List Char, '_' ∉ s.take (f s)
  take : ∀ (s : List Char) m, f s ≤ m → f (s.take m) = f s
  fold : ∀ s : List Char, f (Text.foldChars s) = f s

namespace Segment

variable {f g : List Char → Nat} {p : Char → Bool}

theorem nil (h : Segment f) :
  f [] = 0
  := Nat.le_zero.mp (h.le_length [])

/-- A run of characters. -/
theorem run (hp : Caseless p) (hunderscore : p '_' = false) :
  Segment (runLength p)
  := by
  constructor
  · apply runLength_le
  · intro s
    induction s with
    | nil => simp
    | cons c s ih =>
      rw [runLength_cons]
      split
      · next hc =>
        rw [List.take_succ_cons, List.mem_cons, not_or]
        refine ⟨?_, ih⟩
        rintro rfl
        rw [hunderscore] at hc
        cases hc
      · simp
  · intro s
    induction s with
    | nil => simp
    | cons c s ih =>
      intro m hm
      cases m with
      | zero => exact (Nat.le_zero.mp hm).symm
      | succ m =>
        rw [List.take_succ_cons, runLength_cons, runLength_cons]
        by_cases hc : p c
        · rw [runLength_cons, if_pos hc] at hm
          rw [ih m (Nat.le_of_succ_le_succ hm)]
        · rw [if_neg hc, if_neg hc]
  · intro s
    induction s with
    | nil => rfl
    | cons c s ih => rw [Text.foldChars_cons, runLength_cons, runLength_cons, hp, ih]

end Segment

/-- A character with the property `p` and what `f` measures after it, or nothing if that is
nothing. -/
def afterMark (p : Char → Bool) (f : List Char → Nat) : List Char → Nat
  | [] => 0
  | c :: s => if p c then if f s = 0 then 0 else f s + 1 else 0

/-- What `f` measures if the text begins with a character with the property `p`, and what `g`
measures otherwise. -/
def onHead (p : Char → Bool) (f g : List Char → Nat) (s : List Char) : Nat :=
  if s.head?.any p then f s else g s

/-- What `f` measures and what `g` measures after it. -/
def inTurn (f g : List Char → Nat) (s : List Char) : Nat := f s + g (s.drop (f s))

namespace Segment

variable {f g : List Char → Nat} {p : Char → Bool}

/-- The part after a mark is a segment together with the mark. -/
theorem afterMark (hf : Segment f) (hp : Caseless p) (hunderscore : p '_' = false) :
  Segment (afterMark p f)
  := by
  constructor
  · -- it stays within the text
    intro s
    cases s with
    | nil => rfl
    | cons c s =>
      have hle := hf.le_length s
      simp only [Lexeme.afterMark, List.length_cons]
      split
      · split <;> omega
      · omega
  · -- it has no underscore
    intro s
    cases s with
    | nil => simp
    | cons c s =>
      rw [Lexeme.afterMark]
      split
      · next hc =>
        split
        · simp
        · rw [List.take_succ_cons, List.mem_cons, not_or]
          refine ⟨?_, hf.notMem s⟩
          rintro rfl
          rw [hunderscore] at hc
          cases hc
      · simp
  · -- what follows the segment has no say in its length
    intro s m hm
    cases s with
    | nil => simp
    | cons c s =>
      cases m with
      | zero => exact (Nat.le_zero.mp hm).symm
      | succ m =>
        rw [Lexeme.afterMark] at hm ⊢
        rw [List.take_succ_cons, Lexeme.afterMark]
        by_cases hc : p c
        · rw [if_pos hc] at hm
          have hle : f s ≤ m := by
            split at hm <;> omega
          rw [hf.take s m hle]
        · rw [if_neg hc, if_neg hc]
  · -- case has no say in its length
    intro s
    cases s with
    | nil => rfl
    | cons c s => rw [Text.foldChars_cons, Lexeme.afterMark, Lexeme.afterMark, hp, hf.fold]

/-- A choice between two segments by the first character is a segment. -/
theorem onHead (hf : Segment f) (hg : Segment g) (hp : Caseless p) :
  Segment (onHead p f g)
  := by
  constructor
  · intro s
    rw [Lexeme.onHead]
    split
    · apply hf.le_length
    · apply hg.le_length
  · intro s
    rw [Lexeme.onHead]
    split
    · apply hf.notMem
    · apply hg.notMem
  · intro s m hm
    cases s with
    | nil => simp
    | cons c s =>
      cases m with
      | zero =>
        rw [Nat.le_zero.mp hm]
        exact hg.nil
      | succ m =>
        have hhead : ((c :: s).take (m + 1)).head? = (c :: s).head? := rfl
        rw [Lexeme.onHead] at hm
        rw [Lexeme.onHead, Lexeme.onHead, hhead]
        by_cases hc : (c :: s).head?.any p
        · rw [if_pos hc] at hm
          rw [if_pos hc, if_pos hc, hf.take _ _ hm]
        · rw [if_neg hc] at hm
          rw [if_neg hc, if_neg hc, hg.take _ _ hm]
  · intro s
    have hhead : (Text.foldChars s).head?.any p = s.head?.any p := by
      cases s with
      | nil => rfl
      | cons c s => exact hp c
    rw [Lexeme.onHead, hhead, hf.fold, hg.fold, Lexeme.onHead]

/-- Two segments one after the other are a segment. -/
theorem inTurn (hf : Segment f) (hg : Segment g) :
  Segment (inTurn f g)
  := by
  constructor
  · intro s
    have hleft := hf.le_length s
    have hright := hg.le_length (s.drop (f s))
    rw [List.length_drop] at hright
    rw [Lexeme.inTurn]
    omega
  · intro s
    rw [Lexeme.inTurn, List.take_add, List.mem_append, not_or]
    exact ⟨hf.notMem s, hg.notMem _⟩
  · intro s m hm
    rw [Lexeme.inTurn] at hm ⊢
    rw [hf.take s m (by omega), List.drop_take, hg.take _ _ (by omega), Lexeme.inTurn]
  · intro s
    have hdrop : (Text.foldChars s).drop (f s) = Text.foldChars (s.drop (f s)) :=
      List.map_drop.symm
    rw [Lexeme.inTurn, hf.fold, hdrop, hg.fold, Lexeme.inTurn]

end Segment

/-- A segment that ends before the place where the text is cut off. -/
theorem Segment.drop_foldChars_take {f : List Char → Nat} (h : Segment f) {s : List Char}
    {n m : Nat} (hm : n + f (s.drop n) ≤ m) :
  f ((Text.foldChars (s.take m)).drop n) = f (s.drop n)
  := by
  have hdrop : (Text.foldChars (s.take m)).drop n = Text.foldChars ((s.drop n).take (m - n)) := by
    rw [← List.drop_take]
    exact List.map_drop.symm
  rw [hdrop, h.fold, h.take]
  omega

/-! ## Numbers -/

theorem caseless_isSign : Caseless isSign := caseless_of_ascii (by decide +kernel)

theorem caseless_point : Caseless (· = '.') := caseless_of_isAlpha_eq_false rfl

theorem segment_digits : Segment (runLength Char.isDigit) := .run caseless_isDigit rfl

/-- The fraction of a number is a segment. -/
theorem segment_fraction :
  Segment fractionLength
  := by
  have h : fractionLength = afterMark (· = '.') (runLength Char.isDigit) := by
    funext s
    cases s with
    | nil => rfl
    | cons c s =>
      rw [afterMark]
      split
      · next hc =>
        rw [of_decide_eq_true hc]
        rfl
      · next hc => rw [fractionLength_of_ne (by simpa using hc)]
  rw [h]
  apply segment_digits.afterMark caseless_point rfl

/-- The digits of an exponent, with a sign before them, are a segment. -/
theorem segment_exponentDigits :
  Segment exponentDigitsLength
  := by
  have h : exponentDigitsLength
      = onHead isSign (afterMark isSign (runLength Char.isDigit)) (runLength Char.isDigit) := by
    funext s
    cases s with
    | nil => rfl
    | cons c s =>
      by_cases hc : c = '+' ∨ c = '-'
      · simp [exponentDigitsLength, onHead, afterMark, isSign, hc]
      · simp [exponentDigitsLength, onHead, isSign, hc]
  rw [h]
  apply (segment_digits.afterMark caseless_isSign rfl).onHead segment_digits caseless_isSign

/-- The exponent of a number is a segment. -/
theorem segment_exponent :
  Segment exponentLength
  := by
  have h : exponentLength = afterMark isExponentLetter exponentDigitsLength := by
    funext s
    cases s <;> rfl
  rw [h]
  apply segment_exponentDigits.afterMark caseless_isExponentLetter rfl

/-- The length of a number beyond its first digit without its kind. -/
def numberLength : List Char → Nat :=
  inTurn (inTurn (runLength Char.isDigit) fractionLength) exponentLength

theorem segment_number : Segment numberLength :=
  (segment_digits.inTurn segment_fraction).inTurn segment_exponent

/-- A number is the part without its kind, and the kind. -/
theorem more_number (s : List Char) :
  (number s).more = numberLength s + kindLength (s.drop (numberLength s))
  := rfl

/-- Without its kind and in small letters a number has the same shape. -/
theorem number_foldChars_take (s : List Char) :
  number (Text.foldChars (s.take (numberLength s))) = ⟨(number s).shape, numberLength s⟩
  := by
  have hlength : numberLength s = runLength Char.isDigit s
      + fractionLength (s.drop (runLength Char.isDigit s))
      + exponentLength (s.drop (runLength Char.isDigit s
        + fractionLength (s.drop (runLength Char.isDigit s)))) := rfl
  have hle := segment_number.le_length s
  have hdigits := segment_digits.drop_foldChars_take (s := s) (n := 0)
    (m := numberLength s) (by rw [List.drop_zero]; omega)
  rw [List.drop_zero, List.drop_zero] at hdigits
  have hfraction := segment_fraction.drop_foldChars_take (s := s) (n := runLength Char.isDigit s)
    (m := numberLength s) (by omega)
  have hexponent := segment_exponent.drop_foldChars_take (s := s)
    (n := runLength Char.isDigit s + fractionLength (s.drop (runLength Char.isDigit s)))
    (m := numberLength s) (by omega)
  have hend : (Text.foldChars (s.take (numberLength s))).drop (numberLength s) = [] := by
    rw [List.drop_eq_nil_iff, Text.length_foldChars, List.length_take]
    omega
  rw [number, hdigits, hfraction, hexponent, ← hlength, hend]
  rfl

/-! ## Tokens -/

/-- Folding twice is folding. -/
theorem foldChars_foldChars (s : List Char) :
  Text.foldChars (Text.foldChars s) = Text.foldChars s
  := by
  rw [Text.foldChars, Text.foldChars, List.map_map]
  apply List.map_congr_left
  intro c _
  apply toLower_toLower

/-- Folding brings no underscore in. -/
theorem underscore_notMem_foldChars {s : List Char} (h : '_' ∉ s) :
  '_' ∉ Text.foldChars s
  := by
  intro hmem
  obtain ⟨c, hc, hlower⟩ := List.mem_map.mp hmem
  obtain rfl : c = '_' := by
    have hcase := caseless_underscore c
    rw [hlower] at hcase
    exact of_decide_eq_true hcase.symm
  apply h hc

/-- A letter in small is a small letter. -/
theorem isLower_toLower {c : Char} (h : c.isAlpha) :
  c.toLower.isLower
  := by
  have hascii := isAscii_of_isAlphanum (isAlphanum_of_isAlpha h)
  apply of_ascii (P := fun c => c.isAlpha → c.toLower.isLower) (by decide +kernel) hascii h

/-- A character of a word in small is a character of a name. -/
theorem isNameChar_toLower {c : Char} (h : isWordChar c) :
  isNameChar c.toLower
  := by
  have hascii : c.toNat < 128 := by
    rcases Bool.or_eq_true_iff.mp h with halphanum | hunderscore
    · apply isAscii_of_isAlphanum halphanum
    · rw [of_decide_eq_true hunderscore]
      decide
  apply of_ascii (P := fun c => isWordChar c → isNameChar c.toLower) (by decide +kernel) hascii h

end Lexeme

open Lexeme

variable {c : Char} {s : List Char}

/-- A word in small letters is a name. -/
theorem isName_foldChars (hc : c.isAlpha) (hs : ∀ d ∈ s, isWordChar d) :
  IsName (Text.foldChars (c :: s))
  := by
  refine ⟨isLower_toLower hc, ?_⟩
  rw [List.all_eq_true]
  intro d hd
  obtain ⟨d', hd', rfl⟩ := List.mem_map.mp hd
  apply isNameChar_toLower (hs d' hd')

/-- A real number without its kind and in small letters is a real literal. -/
theorem isReal_foldChars (hc : c.isDigit) (hreal : (number s).shape = .real) :
  IsReal (Text.foldChars (c :: s.take (numberLength s)))
  := by
  have hlower : c.toLower = c := (isWordChar_and_toLower (isNameChar_of_isDigit hc)).2
  rw [Text.foldChars_cons, hlower]
  refine ⟨?_, ?_, ?_⟩
  · rw [first?_of_isDigit hc, number_foldChars_take, hreal, Text.length_foldChars, List.length_take,
      Nat.min_eq_left (segment_number.le_length s)]
  · rw [List.mem_cons, not_or]
    refine ⟨?_, underscore_notMem_foldChars (segment_number.notMem s)⟩
    rintro rfl
    cases hc
  · rw [Text.foldChars_cons, hlower, foldChars_foldChars]

/-- The value of the token can be written and cut again: a word is a name, and a real number
without its kind is a real literal. -/
structure Token.Legible (t : Token) : Prop where
  name : t.kind = .identifier → IsName t.value.toList
  real : t.kind = .real → IsReal (splitKind t.value).1.toList

/-- A lexeme that is a word consists of a letter and characters of words. -/
theorem isName_of_best? (h : best? (c :: s) = some (.word, [])) :
  IsName (Text.foldChars (c :: s))
  := by
  obtain ⟨p, hmem, hmatch⟩ := exists_pattern_of_best? h
  obtain rfl : p = .seq (.one Char.isAlpha) (.many (.one isWordChar)) := by
    simpa [patterns, numbers] using hmem
  rw [Pattern.match?_seq_one_cons, Pattern.match?_many_one,
    Option.ite_none_right_eq_some] at hmatch
  obtain ⟨hc, hs⟩ := hmatch
  apply isName_foldChars hc
  intro d hd
  by_contra hword
  have hnil := Option.some.inj hs
  rw [List.dropWhile_eq_nil_iff] at hnil
  apply hword (hnil d hd)

/-- What stands before the first underscore of a real number is the number without its kind. -/
theorem isReal_of_best? (h : best? (c :: s) = some (.real, [])) :
  IsReal ((Text.foldChars (c :: s)).takeWhile (· ≠ '_'))
  := by
  obtain ⟨n, hfirst, hdrop⟩ := exists_first?_of_best? h
  have hc := isDigit_of_first?_eq_real hfirst
  rw [first?_of_isDigit hc] at hfirst
  have hnumber := Option.some.inj hfirst
  have hmore : n = numberLength s + kindLength (s.drop (numberLength s)) := by
    rw [← more_number, hnumber]
  have hreal := isReal_foldChars hc (s := s) (by rw [hnumber])
  -- what follows the number without its kind is a kind, which begins with an underscore
  have hkind : (Text.foldChars (s.drop (numberLength s))).takeWhile (· ≠ '_') = [] := by
    cases hrest : s.drop (numberLength s) with
    | nil => rfl
    | cons d rest =>
      have hd : d = '_' := by
        by_contra hd
        have hlength := congrArg List.length hrest
        rw [List.length_drop, List.length_cons] at hlength
        rw [hrest, kindLength_of_ne hd] at hmore
        have hle := List.drop_eq_nil_iff.mp hdrop
        omega
      rw [hd]
      rfl
  have hsplit : Text.foldChars (c :: s) = Text.foldChars (c :: s.take (numberLength s))
      ++ Text.foldChars (s.drop (numberLength s)) := by
    rw [← Text.foldChars_append, List.cons_append, List.take_append_drop]
  rw [hsplit, List.takeWhile_append_of_pos, hkind, List.append_nil]
  · exact hreal
  · intro d hd
    apply decide_eq_true
    rintro rfl
    apply hreal.underscore_notMem hd

/-- The digits of a number with a kind are what stands before the first underscore. -/
theorem fst_splitKind (text : String) :
  (splitKind text).1 = String.ofList (text.toList.takeWhile (· ≠ '_'))
  := by
  rw [splitKind]
  split <;> rfl

/-- The kinds of words and real numbers belong to one shape each. -/
theorem shape_of_spells {shape : Shape} {kind : TokenKind} {value : String}
    (h : shape.Spells s kind value) :
  (kind = .identifier → shape = .word) ∧ (kind = .real → shape = .real)
  := by
  cases shape with
  | skipped => cases h
  | integer | real | word | quoted =>
    rw [h.1]
    simp
  | dotted =>
    have hkind := h.1
    unfold dottedKind at hkind
    split at hkind
    all_goals simp [hkind]
  | symbol symbol =>
    have hmem := h.2.2
    constructor
    all_goals
      rintro rfl
      simp [symbols] at hmem

/-- Every token of a source is legible. -/
theorem InPlace.legible {file : String} {source : List Char} {offset : Nat} {t : Token}
    (h : InPlace file source offset t) :
  t.Legible
  := by
  obtain ⟨shape, text, after, ⟨-, -, -, hstop⟩, -, hbest, -, hspells⟩ := h.spelled
  have hne : text ≠ [] := by
    rintro rfl
    have hnonempty := h.nonempty
    rw [byteLength_nil] at hstop
    omega
  obtain ⟨c, s, rfl⟩ := List.exists_cons_of_ne_nil hne
  obtain ⟨hword, hreal⟩ := shape_of_spells hspells
  constructor
  · intro hkind
    obtain rfl := hword hkind
    rw [hspells.2, String.toList_ofList]
    apply isName_of_best? hbest
  · intro hkind
    obtain rfl := hreal hkind
    rw [fst_splitKind, String.toList_ofList, hspells.2, String.toList_ofList]
    apply isReal_of_best? hbest

/-- The tokens of a source are legible, and only the last one is an end marker. -/
theorem exists_of_tokenize {source file : String} {ts : List Token}
    (h : tokenize source file = .ok ts) :
  ∃ found eof, ts = found ++ [eof] ∧ eof.kind = .eof
    ∧ ∀ t ∈ found, t.kind ≠ .eof ∧ t.Legible
  := by
  obtain ⟨found, rfl, hreads⟩ := exists_reads_of_tokenize h
  refine ⟨found, _, rfl, rfl, ?_⟩
  intro t ht
  have hplace := hreads.inPlace t ht
  exact ⟨hplace.kind_ne_eof, hplace.legible⟩

end FortranScope
