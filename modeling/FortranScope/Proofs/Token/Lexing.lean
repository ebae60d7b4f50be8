import FortranScope.Proofs.Phrase.Writing
import FortranScope.Proofs.Token.Lexeme
import FortranScope.Token.Sequence

/-!
# Texts and their words

Text is written without blanks, so it is read back only if no lexeme runs into the next one.
`Lexes s words` says that `s` is cut into tokens that are the given words.  There is one rule
for each sort of lexeme, which puts it before a text that is already cut.
-/

namespace FortranScope

/-- The text `s` is cut into tokens that are the given words, with the end marker after
them. -/
def Lexes (s : List Char) (words : List (TokenKind × Option String)) : Prop :=
  ∀ file offset, ∃ ts eof, tokensFrom file offset s = .ok (ts ++ [eof]) ∧ eof.kind = .eof
    ∧ ts.map Token.word = words

namespace Lexes

open Lexeme

variable {c : Char} {s rest : List Char} {words : List (TokenKind × Option String)}

/-- An empty text is cut into no words. -/
theorem nil :
  Lexes [] []
  := by
  intro file offset
  use [], Token.ending file offset
  constructor
  · rw [tokensFrom, List.nil_append]
  · exact ⟨rfl, rfl⟩

/-- One more lexeme before a text that is cut into words. -/
theorem lexeme (shape : Shape) {text value : String} {kind : TokenKind} (h : Lexes rest words)
    (htext : text.toList = c :: s) (hfirst : first? c (s ++ rest) = some ⟨shape, s.length⟩)
    (hkind : shape.kind? (c :: s) = some kind) (hvalue : shape.value (c :: s) = value) :
  Lexes (text.toList ++ rest) ((Token.unplaced kind value).word :: words)
  := by
  intro file offset
  obtain ⟨ts, eof, hts, heof, hwords⟩ := h file (offset + byteLength (c :: s))
  use ⟨kind, value, ⟨file, offset, offset + byteLength (c :: s)⟩⟩ :: ts, eof
  refine ⟨?_, heof, ?_⟩
  · rw [htext, List.cons_append, tokensFrom, hfirst]
    simp only [List.take_left, List.drop_left]
    rw [hts]
    simp [Shape.token?, hkind, hvalue]
  · rw [List.map_cons, hwords]
    rfl

/-- A name before a text that is cut into words. -/
theorem name {text : String} (h : Lexes rest words) (hrest : Stops rest)
    (hname : IsName text.toList) :
  Lexes (text.toList ++ rest) ((Token.unplaced .identifier text).word :: words)
  := by
  have hfold := foldChars_eq_self hname.isNameChar
  obtain ⟨c, s, htext⟩ := List.exists_cons_of_ne_nil hname.ne_nil
  rw [htext] at hname hfold
  obtain ⟨hc, hs⟩ := hname
  apply h.lexeme .word htext
  · have hrun : runLength isWordChar (s ++ rest) = s.length := by
      rw [runLength_append fun d hd => hrest.isWordChar_head hd]
      apply runLength_eq_length
      intro d hd
      apply (isWordChar_and_toLower (List.all_eq_true.mp hs d hd)).1
    rw [first?_of_isAlpha (isAlpha_of_isLower hc) (isDigit_of_isLower hc), hrun]
  · rfl
  · simp only [Shape.value]
    rw [hfold, ← htext, String.ofList_toList]

/-- An integer before a text that is cut into words. -/
theorem integer {n : Int} (h : Lexes rest words) (hrest : Stops rest) (hn : 0 ≤ n) :
  Lexes ((toString n).toList ++ rest) ((Token.unplaced .integer (toString n)).word :: words)
  := by
  obtain ⟨m, rfl⟩ := Int.eq_ofNat_of_zero_le hn
  have hlist := Integer.toList_toString_natCast m
  obtain ⟨hne, hdigits⟩ := Integer.digits_toDigits m
  obtain ⟨c, s, hcons⟩ := List.exists_cons_of_ne_nil hne
  rw [hcons] at hlist hdigits
  obtain ⟨hc, hs⟩ := List.forall_mem_cons.mp hdigits
  have hnumber := number_digits hs
  have hkind : '_' ∉ s := by
    intro hmem
    exact absurd (hs '_' hmem) (by decide)
  apply h.lexeme .integer hlist
  · rw [first?_of_isDigit hc, hrest.number_append hkind (by rw [hnumber]), hnumber]
  · rfl
  · simp only [Shape.value]
    rw [foldChars_eq_self fun d hd => isNameChar_of_isDigit (hdigits d hd), ← hlist,
      String.ofList_toList]

/-- A real literal before a text that is cut into words. -/
theorem real {text : String} (h : Lexes rest words) (hrest : Stops rest)
    (hreal : IsReal text.toList) :
  Lexes (text.toList ++ rest) ((Token.unplaced .real text).word :: words)
  := by
  obtain ⟨c, s, htext⟩ := List.exists_cons_of_ne_nil hreal.ne_nil
  rw [htext] at hreal
  obtain ⟨hfirst, hkind, hfold⟩ := hreal
  have hc := isDigit_of_first?_eq_real hfirst
  rw [first?_of_isDigit hc] at hfirst
  have hnumber := Option.some.inj hfirst
  apply h.lexeme .real htext
  · rw [first?_of_isDigit hc, hrest.number_append (List.not_mem_of_not_mem_cons hkind)
      (by rw [hnumber]), hnumber]
  · rfl
  · simp only [Shape.value]
    rw [hfold, ← htext, String.ofList_toList]

/-- Quoted text before a text that is cut into words. -/
theorem quoted {value : String} (h : Lexes rest words) (hrest : Stops rest) :
  Lexes ((String.ofList (Constant.quote '\x27' value.toList)).toList ++ rest)
    ((Token.unplaced .string value).word :: words)
  := by
  have htext : (String.ofList (Constant.quote '\x27' value.toList)).toList
      = '\x27' :: (Constant.doubleQuotes '\x27' value.toList ++ ['\x27']) :=
    String.toList_ofList
  have hclosing := closingLength?_doubleQuotes (s := value.toList)
    fun c hc => hrest.ne_quote_head hc
  have hfirst (t : List Char) :
      first? '\x27' t = (closingLength? '\x27' t).map (⟨.quoted, ·⟩) := rfl
  apply h.lexeme .quoted htext
  · rw [List.append_assoc, List.singleton_append, hfirst, hclosing, List.length_append]
    rfl
  · rfl
  · simp only [Shape.value, unquoted]
    rw [List.dropLast_concat, halveQuotes_doubleQuotes, String.ofList_toList]

/-- A symbol of one character before a text that is cut into words. -/
theorem symbol {kind : TokenKind} (h : Lexes rest words) (hrest : Opens rest) (text : String)
    (htext : text.toList = [c])
    (hfirst : ∀ s, first? c s = (symbol? c s).map fun m => ⟨.symbol m.1, m.2⟩)
    (hsymbol : symbol? c [] = some (kind, 0)) :
  Lexes (text.toList ++ rest) ((Token.unplaced kind text).word :: words)
  := by
  apply h.lexeme (.symbol kind) htext
  · rw [hfirst, List.nil_append, hrest.symbol?_eq hsymbol]
    rfl
  · rfl
  · rw [Shape.value, ← htext, String.ofList_toList]

/-- A dotted word before a text that is cut into words. -/
theorem dotted {text : String} {kind : TokenKind} (letters : List Char) (h : Lexes rest words)
    (htext : text.toList = '.' :: (letters ++ ['.'])) (hne : letters ≠ [])
    (hletters : letters.all Char.isAlpha) (hkind : dottedKind (Text.foldCase text) = kind) :
  Lexes (text.toList ++ rest) ((Token.unplaced kind (Text.foldCase text)).word :: words)
  := by
  have hfold : Text.foldCase text = String.ofList (Text.foldChars ('.' :: (letters ++ ['.']))) := by
    rw [Text.foldCase, htext]
  have hrun : runLength Char.isAlpha (letters ++ '.' :: rest) = letters.length := by
    rw [runLength_append]
    · apply runLength_eq_length (List.all_eq_true.mp hletters)
    · rintro c ⟨⟩
      decide
  apply h.lexeme .dotted htext
  · change dotted? (letters ++ ['.'] ++ rest) = _
    rw [List.append_assoc, List.singleton_append, dotted?]
    simp only [hrun, List.length_eq_zero_iff, if_neg hne, List.drop_left, List.head?_cons,
      if_true, List.length_append, List.length_singleton]
  · rw [Shape.kind?, ← hfold, hkind]
  · rw [hfold]
    rfl

/-- An operator between operands before a text that is cut into words. -/
theorem binaryOperator (operator : BinaryOperator) (h : Lexes rest words)
    (hrest : Opens rest) :
  Lexes (operator.spelling.toList ++ rest)
    ((InfixOperator.intrinsic operator).token.word :: words)
  := by
  cases operator with
  | multiply | divide | add | subtract | lt | gt =>
    apply h.symbol hrest _ rfl
    · intro s
      rfl
    · rfl
  | power | concat | eq | ne | le | ge =>
    apply h.lexeme (.symbol _) rfl
    · rfl
    · rfl
    · rfl
  | and =>
    exact h.dotted ['A', 'N', 'D'] (by simp [BinaryOperator.spelling]) (by decide) (by decide)
      (by decide +kernel)
  | or =>
    exact h.dotted ['O', 'R'] (by simp [BinaryOperator.spelling]) (by decide) (by decide)
      (by decide +kernel)
  | eqv =>
    exact h.dotted ['E', 'Q', 'V'] (by simp [BinaryOperator.spelling]) (by decide) (by decide)
      (by decide +kernel)
  | neqv =>
    exact h.dotted ['N', 'E', 'Q', 'V'] (by simp [BinaryOperator.spelling]) (by decide) (by decide)
      (by decide +kernel)
  | xor =>
    exact h.dotted ['X', 'O', 'R'] (by simp [BinaryOperator.spelling]) (by decide) (by decide)
      (by decide +kernel)

/-- An operator before its operand before a text that is cut into words. -/
theorem unaryOperator (operator : UnaryOperator) (h : Lexes rest words) :
  Lexes (operator.spelling.toList ++ rest)
    ((PrefixOperator.intrinsic operator).token.word :: words)
  := by
  cases operator with
  | plus | negate =>
    apply h.lexeme (.symbol _) rfl
    · rfl
    · rfl
    · rfl
  | not =>
    exact h.dotted ['N', 'O', 'T'] (by simp [UnaryOperator.spelling]) (by decide) (by decide)
      (by decide +kernel)

/-- A logical literal before a text that is cut into words. -/
theorem logical {value : Bool} {kind : Int} (h : Lexes rest words) :
  Lexes ((Constant.logical value kind).text.toList ++ rest)
    ((Token.unplaced .logical (if value then ".true." else ".false.")).word :: words)
  := by
  have htrue : Text.foldCase ".TRUE." = ".true." := by decide +kernel
  have hfalse : Text.foldCase ".FALSE." = ".false." := by decide +kernel
  cases value with
  | true =>
    rw [if_pos rfl, ← htrue, Constant.text]
    exact h.dotted ['T', 'R', 'U', 'E'] (by simp) (by decide) (by decide) (by decide +kernel)
  | false =>
    rw [if_neg Bool.false_ne_true, ← hfalse, Constant.text]
    exact h.dotted ['F', 'A', 'L', 'S', 'E'] (by simp) (by decide) (by decide)
      (by decide +kernel)

/-- A symbol that never goes on before a text that is cut into words. -/
theorem punctuation {kind : TokenKind} (h : Lexes rest words) (text : String)
    (htext : text.toList = [c]) (hfirst : first? c rest = some ⟨.symbol kind, 0⟩) :
  Lexes (c :: rest) ((Token.unplaced kind text).word :: words)
  := by
  have hvalue : (Shape.symbol kind).value [c] = text := by
    rw [Shape.value, ← htext, String.ofList_toList]
  have hlex := h.lexeme (.symbol kind) htext hfirst rfl hvalue
  rw [htext] at hlex
  apply hlex

end Lexes

end FortranScope
