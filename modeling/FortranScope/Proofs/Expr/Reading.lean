import FortranScope.Proofs.Expr.Writing
import FortranScope.Proofs.Token.Lexing

/-!
# Reading back what an expression is written as

The text of an expression is cut into the words of its phrase.  `Spells s words` says so of
a part of a text, whatever the text after it, if only no lexeme goes on there.
-/

namespace FortranScope

open Lexeme

/-- The words that the phrase is written by. -/
def Phrase.words (e : Phrase) : List (TokenKind × Option String) := e.tokens.map Token.word

/-- The words that the arguments are written by. -/
def Phrase.ArgList.words (args : ArgList) : List (TokenKind × Option String) :=
  args.tokens.map Token.word

/-- Where no lexeme goes on after it, `s` is cut into the given words, and a symbol may stand
before it. -/
def Spells (s : List Char) (words : List (TokenKind × Option String)) : Prop :=
  ∀ rest words', Stops rest → Lexes rest words' →
    Opens (s ++ rest) ∧ Lexes (s ++ rest) (words ++ words')

/-! ## What stands before and after operands -/

/-- A letter or a digit may follow a symbol. -/
theorem opens_of_isAlphanum {c : Char} {s : List Char} (h : c.isAlphanum) :
  Opens (c :: s)
  := by
  rintro d ⟨⟩
  refine ⟨?_, ?_, ?_⟩
  all_goals
    rintro rfl
    exact absurd h (by decide)

/-- Parentheses, commas and percent signs end the lexeme before them. -/
theorem stops_of_mem {c : Char} {s : List Char} (h : c ∈ ['(', ')', ',', '%']) :
  Stops (c :: s)
  := by
  simp only [List.mem_cons, List.not_mem_nil, or_false] at h
  rcases h with rfl | rfl | rfl | rfl
  all_goals exact ⟨by decide, by decide, fun hpoint => absurd hpoint (by decide)⟩

/-- An infix operator ends the lexeme before it. -/
theorem BinaryOperator.stops_spelling (operator : BinaryOperator) (s : List Char) :
  Stops (operator.spelling.toList ++ s)
  := by
  cases operator
  all_goals simp [spelling, Stops, isWordChar]

/-- A prefix operator may follow a symbol. -/
theorem UnaryOperator.opens_spelling (operator : UnaryOperator) (s : List Char) :
  Opens (operator.spelling.toList ++ s)
  := by
  cases operator
  all_goals simp [spelling, Opens]

namespace Spells

variable {s t : List Char} {words words' : List (TokenKind × Option String)}

/-- A name is read as an identifier. -/
theorem name {text : String} (h : IsName text.toList) :
  Spells text.toList [(Token.unplaced .identifier text).word]
  := by
  intro rest words' hrest hlex
  refine ⟨?_, hlex.name hrest h⟩
  obtain ⟨c, s, htext⟩ := List.exists_cons_of_ne_nil h.ne_nil
  rw [htext] at h ⊢
  apply opens_of_isAlphanum (isAlphanum_of_isAlpha (isAlpha_of_isLower h.1))

/-- A number that is not negative is read as a single integer. -/
theorem integer {n : Int} (h : 0 ≤ n) :
  Spells (toString n).toList [(Token.unplaced .integer (toString n)).word]
  := by
  intro rest words' hrest hlex
  refine ⟨?_, hlex.integer hrest h⟩
  obtain ⟨m, rfl⟩ := Int.eq_ofNat_of_zero_le h
  obtain ⟨hne, hdigits⟩ := Integer.digits_toDigits m
  obtain ⟨c, s, hcons⟩ := List.exists_cons_of_ne_nil hne
  rw [Integer.toList_toString_natCast, hcons]
  apply opens_of_isAlphanum (isAlphanum_of_isDigit _)
  apply hdigits
  rw [hcons]
  apply List.mem_cons_self

/-- A real number is read as a single one. -/
theorem real {text : String} (h : IsReal text.toList) :
  Spells text.toList [(Token.unplaced .real text).word]
  := by
  intro rest words' hrest hlex
  refine ⟨?_, hlex.real hrest h⟩
  obtain ⟨c, s, htext⟩ := List.exists_cons_of_ne_nil h.ne_nil
  rw [htext] at h ⊢
  apply opens_of_isAlphanum (isAlphanum_of_isDigit (isDigit_of_first?_eq_real h.1))

/-- Parentheses are read around what is in them. -/
theorem parenthesized (h : Spells s words) :
  Spells ('(' :: (s ++ [')']))
    ((Token.unplaced .openParen "(").word
      :: (words ++ [(Token.unplaced .closeParen ")").word]))
  := by
  intro rest words' hrest hlex
  constructor
  · rintro c ⟨⟩
    decide
  · have hclosing := hlex.punctuation (c := ')') ")" rfl rfl
    have hinner := (h _ _ (stops_of_mem (by decide)) hclosing).2
    have hopening := hinner.punctuation (c := '(') "(" rfl rfl
    simpa using hopening

/-- An operator before its operand. -/
theorem unary (operator : UnaryOperator) (h : Spells s words) :
  Spells (operator.spelling.toList ++ s)
    ((PrefixOperator.intrinsic operator).token.word :: words)
  := by
  intro rest words' hrest hlex
  rw [List.append_assoc]
  exact ⟨operator.opens_spelling _, (h rest words' hrest hlex).2.unaryOperator operator⟩

/-- An operator between its operands. -/
theorem binary (operator : BinaryOperator) (hs : Spells s words) (ht : Spells t words') :
  Spells (s ++ operator.spelling.toList ++ t)
    (words ++ (InfixOperator.intrinsic operator).token.word :: words')
  := by
  intro rest words₂ hrest hlex
  obtain ⟨hopens, hright⟩ := ht rest words₂ hrest hlex
  have hoperator := hright.binaryOperator operator hopens
  have hleft := hs _ _ (operator.stops_spelling _) hoperator
  rw [List.append_assoc, List.append_assoc, List.append_assoc, List.cons_append]
  apply hleft

/-- A component of what stands before it. -/
theorem component {name : String} (h : Spells s words) (hname : IsName name.toList) :
  Spells (s ++ '%' :: name.toList)
    (words ++ [(Token.unplaced .percent "%").word, (Token.unplaced .identifier name).word])
  := by
  intro rest words' hrest hlex
  have hword := (hlex.name hrest hname).punctuation (c := '%') "%" rfl rfl
  have hbase := h _ _ (stops_of_mem (by decide)) hword
  rw [List.append_assoc, List.append_assoc]
  apply hbase

/-- Arguments behind a name. -/
theorem reference {callee : String} (hcallee : IsName callee.toList)
    (hargs : ∀ rest words', Stops rest → Lexes rest words' →
      Lexes (s ++ rest) (words ++ words')) :
  Spells (callee.toList ++ '(' :: (s ++ [')']))
    ((Token.unplaced .identifier callee).word :: (Token.unplaced .openParen "(").word
      :: (words ++ [(Token.unplaced .closeParen ")").word]))
  := by
  intro rest words' hrest hlex
  have hclosing := hlex.punctuation (c := ')') ")" rfl rfl
  have hinner := hargs _ _ (stops_of_mem (by decide)) hclosing
  have hopening := hinner.punctuation (c := '(') "(" rfl rfl
  have hword := name hcallee _ _ (stops_of_mem (by decide)) hopening
  simpa using hword

/-- A constant that can be written is read as the words of its phrase. -/
theorem constant {value : Constant} (h : value.Spellable) :
  Spells value.text.toList value.phrase.words
  := by
  cases value with
  | integer value kind =>
    rw [Constant.phrase, Constant.text]
    split
    · next hvalue =>
      rw [Integer.toList_toString_of_neg hvalue]
      apply unary .negate (integer (by omega))
    · next hvalue => apply integer (by omega)
  | real digits kind => apply real h
  | logical value kind =>
    intro rest words' hrest hlex
    refine ⟨?_, hlex.logical⟩
    cases value
    all_goals simp [Constant.text, Opens]
  | character value kind =>
    intro rest words' hrest hlex
    refine ⟨?_, hlex.quoted hrest⟩
    rw [Constant.text, String.toList_ofList]
    rintro c ⟨⟩
    decide

/-- An operand is put into parentheses together with its phrase. -/
theorem operand {text : String} {operand : Phrase} (least level : Nat)
    (h : Spells text.toList operand.words) :
  Spells (Expr.operandText least level text).toList
    (Expr.operandPhrase least level operand).words
  := by
  rw [Expr.operandText, Expr.operandPhrase]
  split
  · apply h
  · have hinner := h.parenthesized
    simpa [Phrase.words, Phrase.tokens_parentheses] using hinner

end Spells

namespace Expr

/-- Arguments are written with commas between them. -/
theorem Args.text_cons_cons (keyword keyword' : Option String) (value value' : Expr)
    (rest : Args) :
  (Args.cons keyword value (.cons keyword' value' rest)).text
    = keywordText keyword ++ value.text ++ "," ++ (Args.cons keyword' value' rest).text
  := by
  rw [text]
  intro h
  cases h

/-- A keyword before what is put behind it. -/
theorem lexes_keywordText {keyword : Option String} {s : List Char}
    {words : List (TokenKind × Option String)} (h : ∀ name ∈ keyword, IsName name.toList)
    (hopens : Opens s) (hlex : Lexes s words) :
  Lexes ((keywordText keyword).toList ++ s)
    ((Phrase.keywordTokens (keyword.map (⟨·, default⟩))).map Token.word ++ words)
  := by
  cases keyword with
  | none => apply hlex
  | some name =>
    have hsign := hlex.symbol hopens "=" rfl (fun _ => rfl) rfl
    have hstops : Stops ("=".toList ++ s) :=
      ⟨by decide, by decide, fun hpoint => absurd hpoint (by decide)⟩
    have hname := hsign.name hstops (h name rfl)
    simpa [keywordText, Phrase.keywordTokens] using hname

mutual

/-- The text of an expression is cut into the words of its phrase. -/
theorem spells_text (e : Expr) (h : e.Spellable) :
  Spells e.text.toList e.phrase.words
  := by
  -- What is put before `rest` has to begin so that no symbol runs into it; hence `Opens` is
  -- part of `Spells`.
  match e with
  | constant value => exact Spells.constant h
  | designator name _ => exact Spells.name h
  | component base name =>
    have hbase := (spells_text base h.1).operand primaryLevel base.level
    have hcomponent := hbase.component h.2
    simpa [text, phrase, Phrase.words, Phrase.tokens_component] using hcomponent
  | reference name _ args =>
    have hreference := Spells.reference h.1 (args.lexes_text h.2)
    simpa [text, phrase, Phrase.words, Phrase.ArgList.words, Phrase.tokens_reference]
      using hreference
  | parentheses inner =>
    have hinner := (spells_text inner h).parenthesized
    simpa [text, phrase, Phrase.words, Phrase.tokens_parentheses] using hinner
  | unary operator operand =>
    have hoperand := (spells_text operand h).operand (operator.level + 1) operand.level
    have hunary := hoperand.unary operator
    simpa [text, phrase, Phrase.words, Phrase.tokens_unary] using hunary
  | binary operator left right =>
    have hleft := (spells_text left h.1).operand operator.leftLevel left.level
    have hright := (spells_text right h.2).operand operator.rightLevel right.level
    have hbinary := hleft.binary operator hright
    simpa [text, phrase, Phrase.words, Phrase.tokens_binary] using hbinary

/-- The text of arguments is cut into their words. -/
theorem Args.lexes_text (args : Args) (h : args.Spellable) (rest : List Char)
    (words : List (TokenKind × Option String)) (hrest : Stops rest) (hlex : Lexes rest words) :
  Lexes (args.text.toList ++ rest) (args.phrases.words ++ words)
  := by
  match args with
  | .nil => exact hlex
  | .cons keyword value .nil =>
    obtain ⟨hopens, hvalue⟩ := value.spells_text h.2.1 rest words hrest hlex
    have hargument := lexes_keywordText h.1 hopens hvalue
    simpa [Args.text, Args.phrases, Phrase.words, Phrase.ArgList.words, Phrase.tokens_cons_nil]
      using hargument
  | .cons keyword value (.cons keyword' value' others) =>
    have hothers := (Args.cons keyword' value' others).lexes_text h.2.2 rest words hrest hlex
    have hcomma := hothers.punctuation (c := ',') "," rfl rfl
    obtain ⟨hopens, hvalue⟩ := value.spells_text h.2.1 _ _ (stops_of_mem (by decide)) hcomma
    have hargument := lexes_keywordText h.1 hopens hvalue
    simpa [Args.text_cons_cons, Args.phrases, Phrase.words, Phrase.ArgList.words,
      Phrase.tokens_cons_cons] using hargument

end

/-- Reading the text of an expression gives what the expression says. -/
theorem ofSource_text {e : Expr} (h : e.Spellable) (file : String) :
  ∃ p, Phrase.ofSource e.text file = .ok p ∧ p.plain = e.plain
  := by
  obtain ⟨-, hlex⟩ := e.spells_text h [] [] trivial .nil
  rw [List.append_nil, List.append_nil] at hlex
  obtain ⟨ts, eof, hts, heof, hwords⟩ := hlex file 0
  obtain ⟨p, hp, hbare⟩ :=
    Phrase.exists_ofTokens (e.writable_phrase h) e.graded_phrase hwords heof
  use p
  constructor
  · rw [Phrase.ofSource, tokenize, hts]
    apply hp
  · rw [← p.plain_bare, hbare, e.phrase.plain_bare, e.plain_phrase]

/-- `-(-2)**a%b+f(k=1.5e-3)`, where the base of the power is a negative constant. -/
theorem ofSource_text_negative_base :
  let e := binary .add
    (unary .negate (binary .power (constant (.integer (-2) 4)) (component (designator "a" ⟨0⟩) "b")))
    (reference "f" none (.cons (some "k") (constant (.real "1.5e-3" 4)) .nil))
  e.Spellable ∧ ∃ p, Phrase.ofSource e.text "t.f90" = .ok p ∧ p.plain = e.plain
  := by
  intro e
  have hbase : IsName "a".toList := by decide
  have hkeyword : ∀ name ∈ some "k", IsName name.toList := by
    rintro name ⟨⟩
    decide
  have hreal : IsReal "1.5e-3".toList := by decide +kernel
  have h : e.Spellable :=
    ⟨⟨⟨by decide, by decide⟩, hbase, by decide⟩, by decide, hkeyword, hreal, trivial⟩
  exact ⟨h, ofSource_text h "t.f90"⟩

end Expr

end FortranScope
