import FortranScope.Generic
import FortranScope.Proofs.Token.LetterCase

/-!
# Operators as tokens

The operator of a generic identifier is classified without cutting it into tokens.  Whether the
spelling is a single token, and of which kind, decides the outcome all the same: an intrinsic
operator is what a token of its kind denotes, and a word between two points is a defined operator
if the token is, or if it is a logical constant.
-/

namespace FortranScope

open Lexeme

/-! ## Sources of one token -/

/-- The text is a single token with the given kind and value, and nothing else. -/
def IsToken (file text : String) (kind : TokenKind) (value : String) : Prop :=
  tokenize text file = .ok [⟨kind, value, ⟨file, 0, text.utf8ByteSize⟩⟩,
    Token.ending file text.utf8ByteSize]

/-- An empty text has no lexeme. -/
theorem best?_nil :
  best? [] = none
  := by
  simp [best?, patterns, numbers, symbols, attempt, Pattern.match?, Pattern.run, Pattern.char,
    Pattern.literal, digits]

/-- A text is a single token if it is a single lexeme, and the lexeme spells the token. -/
theorem isToken_iff {file text : String} {kind : TokenKind} {value : String} :
  IsToken file text kind value
    ↔ ∃ shape : Shape, best? text.toList = some (shape, [])
      ∧ shape.kind? text.toList = some kind ∧ value = shape.value text.toList
  := by
  constructor
  · intro h
    obtain ⟨found, hfound, hreads⟩ := exists_reads_of_tokenize h
    have hsplit : [_] ++ [_] = found ++ [_] := hfound
    obtain ⟨rfl, -⟩ := List.append_inj' hsplit rfl
    obtain ⟨-, -, -, -, shape, s, after, hstands, -, hbest, htoken, -⟩ :=
      hreads.inPlace _ List.mem_cons_self
    obtain ⟨htext, hstop⟩ := hstands.of_start_eq
    -- the token covers the text, so nothing comes after it
    have hafter : after = [] := by
      apply eq_nil_of_byteLength_eq_zero
      have hsize := byteLength_toList text
      rw [htext, byteLength_append] at hsize
      dsimp only at hstop
      omega
    rw [hafter, List.append_nil] at htext
    obtain ⟨kind', hkind, heq⟩ := Option.map_eq_some_iff.mp htoken
    obtain ⟨rfl, rfl, -⟩ := Token.mk.inj heq
    rw [htext]
    exact ⟨shape, hbest, hkind, rfl⟩
  · rintro ⟨shape, hbest, hkind, rfl⟩
    have hne : text.toList ≠ [] := by
      intro hnil
      rw [hnil, best?_nil] at hbest
      contradiction
    have hread : tokensFrom file 0 (text.toList ++ []) = _ :=
      tokensFrom_of_best? hne (by rw [List.append_nil, hbest])
    rw [List.append_nil, Shape.token?, hkind, tokensFrom_nil, Nat.zero_add, byteLength_toList]
      at hread
    exact hread

/-! ## Dotted words -/

/-- A dotted word is letters between points. -/
theorem isDottedWord_iff {s : List Char} :
  GenericSpec.isDottedWord s = true
    ↔ ∃ letters, letters ≠ [] ∧ (∀ c ∈ letters, c.isAlpha = true) ∧ s = '.' :: (letters ++ ['.'])
  := by
  constructor
  · intro h
    unfold GenericSpec.isDottedWord at h
    split at h
    · next rest =>
      simp only [Bool.and_eq_true, decide_eq_true_eq, Bool.not_eq_true', List.isEmpty_eq_false_iff,
        List.all_eq_true] at h
      obtain ⟨⟨hlast, hne⟩, hletters⟩ := h
      use rest.dropLast, hne, hletters
      rw [List.dropLast_append_getLast? '.' hlast]
    · contradiction
  · rintro ⟨letters, hne, hletters, rfl⟩
    simp only [GenericSpec.isDottedWord, List.getLast?_concat, List.dropLast_concat]
    simpa [hne] using hletters

/-- What `dotted?` takes is letters and a point. -/
theorem exists_letters_of_dotted? {s : List Char} {lexeme : Lexeme} (h : dotted? s = some lexeme)
    (hmore : s.drop lexeme.more = []) :
  ∃ letters, letters ≠ [] ∧ (∀ c ∈ letters, c.isAlpha = true) ∧ s = letters ++ ['.']
  := by
  simp only [dotted?] at h
  split at h
  · contradiction
  · next hne =>
    split at h
    · next hpoint =>
      obtain rfl := Option.some.inj h
      have hsplit : s = s.takeWhile Char.isAlpha ++ s.drop (runLength Char.isAlpha s) := by
        rw [drop_runLength, List.takeWhile_append_dropWhile]
      refine ⟨s.takeWhile Char.isAlpha, ?_, ?_, ?_⟩
      · rintro hnil
        rw [runLength, hnil] at hne
        exact hne rfl
      · intro c hc
        exact List.mem_takeWhile_imp hc
      · obtain ⟨rest, hrest⟩ := List.head?_eq_some_iff.mp hpoint
        rw [← List.drop_drop, hrest, List.drop_succ_cons, List.drop_zero] at hmore
        rw [hmore] at hrest
        rw [hrest] at hsplit
        exact hsplit
    · contradiction

/-- The dotted words are the lexemes of that shape. -/
theorem best?_eq_dotted_iff {s : List Char} :
  best? s = some (.dotted, []) ↔ GenericSpec.isDottedWord s = true
  := by
  rw [isDottedWord_iff]
  constructor
  · intro h
    obtain ⟨p, hmem, hmatch⟩ := exists_pattern_of_best? h
    obtain rfl : p = .seq (.char '.') (.seq (.run Char.isAlpha) (.char '.')) := by
      simpa [patterns, numbers] using hmem
    cases s with
    | nil =>
      rw [best?_nil] at h
      contradiction
    | cons c s =>
      rw [match?_seq_char_cons, Option.ite_none_right_eq_some] at hmatch
      obtain ⟨rfl, hletters⟩ := hmatch
      have hdotted := match?_dotted s
      rw [hletters, Option.map_some] at hdotted
      obtain ⟨lexeme, hlexeme, heq⟩ := Option.map_eq_some_iff.mp hdotted.symm
      obtain ⟨letters, hne, hall, rfl⟩ :=
        exists_letters_of_dotted? hlexeme (Prod.mk.inj heq).2
      use letters, hne, hall
  · rintro ⟨letters, hne, hletters, rfl⟩
    have hrun : runLength Char.isAlpha (letters ++ ['.']) = letters.length := by
      rw [runLength_append]
      · apply runLength_eq_length hletters
      · rintro c ⟨⟩
        decide
    have hfirst : first? '.' (letters ++ ['.']) = some ⟨.dotted, letters.length + 1⟩ := by
      change dotted? (letters ++ ['.']) = _
      simp only [dotted?, hrun, List.length_eq_zero_iff, if_neg hne, List.drop_left,
        List.head?_cons, if_true]
    rw [best?_eq, hfirst]
    simp

/-- The symbols are the lexemes of that shape. -/
theorem best?_eq_symbol_iff {s : List Char} {kind : TokenKind} :
  best? s = some (.symbol kind, []) ↔ (String.ofList s, kind) ∈ symbols
  := by
  constructor
  · apply mem_symbols_of_best?
  · intro h
    have hall : ∀ symbol ∈ symbols,
        (symbol.1.toList.head?.bind fun c => first? c symbol.1.toList.tail)
          = some ⟨.symbol symbol.2, symbol.1.toList.length - 1⟩ := by
      decide +kernel
    have hfirst := hall _ h
    rw [String.toList_ofList] at hfirst
    cases s with
    | nil => cases hfirst
    | cons c s =>
      have hlexeme : first? c s = some ⟨.symbol kind, s.length⟩ := hfirst
      rw [best?_eq, hlexeme, Option.map_some, List.drop_length]

/-- A text is one lexeme if it is one in small letters. -/
theorem best?_foldChars_iff {s : List Char} {shape : Shape} :
  best? (Text.foldChars s) = some (shape, []) ↔ best? s = some (shape, [])
  := by
  rw [best?_foldChars]
  constructor
  · intro h
    obtain ⟨⟨shape', rest⟩, hbest, heq⟩ := Option.map_eq_some_iff.mp h
    obtain ⟨rfl, hrest⟩ := Prod.mk.inj heq
    have hnil : rest = [] := List.map_eq_nil_iff.mp hrest
    rw [hbest, hnil]
  · intro h
    rw [h]
    rfl

/-! ## Kinds of operators -/

namespace GenericOperator

/-- The operator of a generic identifier that stands for the use with one operand. -/
def ofUnary : UnaryOperator → GenericOperator
  | .plus => binary .add
  | .negate => binary .subtract
  | .not => not

/-- The operator of a generic identifier that a token of the given kind denotes, be it between two
operands or before one. -/
def ofTokenKind? (kind : TokenKind) : Option GenericOperator :=
  ((BinaryOperator.ofTokenKind? kind).map binary).or ((UnaryOperator.ofTokenKind? kind).map ofUnary)

/-- The two uses of a token are of the same operator of a generic identifier. -/
theorem ofTokenKind?_eq_some_iff {kind : TokenKind} {operator : GenericOperator} :
  ofTokenKind? kind = some operator
    ↔ (∃ o, BinaryOperator.ofTokenKind? kind = some o ∧ operator = binary o)
      ∨ ∃ o, UnaryOperator.ofTokenKind? kind = some o ∧ operator = ofUnary o
  := by
  cases kind <;> simp [ofTokenKind?, BinaryOperator.ofTokenKind?, UnaryOperator.ofTokenKind?, ofUnary,
    eq_comm]

/-- The table of spellings agrees with the kinds of dotted words. -/
theorem ofSpelling?_of_isDottedWord {word : String}
    (h : GenericSpec.isDottedWord word.toList = true) :
  ofSpelling? word = ofTokenKind? (dottedKind word)
  := by
  unfold dottedKind
  split
  case h_15 =>
    -- the word has no fixed meaning, and being dotted it is no symbol
    unfold ofSpelling?
    split
    case h_25 => rfl
    all_goals contradiction
  all_goals rfl

/-- The table of spellings agrees with the kinds of symbols. -/
theorem ofSpelling?_of_mem_symbols {symbol : String × TokenKind} (h : symbol ∈ symbols) :
  ofSpelling? symbol.1 = ofTokenKind? symbol.2
  := by
  have hall : ∀ symbol ∈ symbols, ofSpelling? symbol.1 = ofTokenKind? symbol.2 := by
    decide +kernel
  apply hall symbol h

/-- Every spelling in the table is a symbol or a dotted word. -/
theorem dotted_or_symbol_of_ofSpelling? {word : String} {operator : GenericOperator}
    (h : ofSpelling? word = some operator) :
  GenericSpec.isDottedWord word.toList = true ∨ ∃ kind, (word, kind) ∈ symbols
  := by
  unfold ofSpelling? at h
  split at h
  case h_25 => contradiction
  all_goals first
    | exact .inl (by decide +kernel)
    | exact .inr (by simp [symbols])

end GenericOperator

/-! ## The classification -/

namespace GenericSpec

variable {file text : String} {kind : TokenKind} {value : String}

/-- A dotted word is a token, whose kind is the one given to the word. -/
theorem isToken_of_isDottedWord (h : isDottedWord (Text.foldCase text).toList = true) :
  IsToken file text (dottedKind (Text.foldCase text)) (Text.foldCase text)
  := by
  rw [Text.toList_foldCase] at h
  have hbest := best?_foldChars_iff.mp (best?_eq_dotted_iff.mpr h)
  exact isToken_iff.mpr ⟨.dotted, hbest, rfl, rfl⟩

/-- A symbol is a token, whose kind is the one given to the symbol. -/
theorem isToken_of_mem_symbols (h : (Text.foldCase text, kind) ∈ symbols) :
  IsToken file text kind text
  := by
  have hbest := best?_foldChars_iff.mp (best?_eq_symbol_iff.mpr h)
  exact isToken_iff.mpr ⟨.symbol kind, hbest, rfl, String.ofList_toList.symm⟩

/-- A single token is a dotted word, a symbol, or none that has to do with operators. -/
theorem cases_of_isToken (h : IsToken file text kind value) :
  (isDottedWord (Text.foldCase text).toList = true ∧ kind = dottedKind (Text.foldCase text)
      ∧ value = Text.foldCase text)
    ∨ (Text.foldCase text, kind) ∈ symbols
    ∨ kind ∈ [.integer, .real, .identifier, .string]
  := by
  obtain ⟨shape, hbest, hkind, rfl⟩ := isToken_iff.mp h
  have hfold := best?_foldChars_iff.mpr hbest
  cases shape with
  | skipped => contradiction
  | integer | real | word | quoted =>
    obtain rfl := Option.some.inj hkind
    simp
  | dotted =>
    obtain rfl := Option.some.inj hkind
    left
    rw [Text.toList_foldCase]
    exact ⟨best?_eq_dotted_iff.mp hfold, rfl, rfl⟩
  | symbol k =>
    obtain rfl : k = kind := Option.some.inj hkind
    exact .inr (.inl (best?_eq_symbol_iff.mp hfold))

/-- A spelling in the table is a single token whose kind denotes the operator, and no other text
is. -/
theorem exists_isToken_iff {operator : GenericOperator} :
  (∃ kind value, IsToken file text kind value
      ∧ GenericOperator.ofTokenKind? kind = some operator)
    ↔ GenericOperator.ofSpelling? (Text.foldCase text) = some operator
  := by
  constructor
  · rintro ⟨kind, value, htoken, hkind⟩
    rcases cases_of_isToken htoken with ⟨hdotted, rfl, -⟩ | hsymbol | hother
    · rw [GenericOperator.ofSpelling?_of_isDottedWord hdotted, hkind]
    · rw [← hkind]
      apply GenericOperator.ofSpelling?_of_mem_symbols hsymbol
    · simp only [List.mem_cons, List.not_mem_nil, or_false] at hother
      rcases hother with rfl | rfl | rfl | rfl <;> cases hkind
  · intro h
    rcases GenericOperator.dotted_or_symbol_of_ofSpelling? h with hdotted | ⟨kind, hsymbol⟩
    · rw [GenericOperator.ofSpelling?_of_isDottedWord hdotted] at h
      exact ⟨_, _, isToken_of_isDottedWord hdotted, h⟩
    · rw [GenericOperator.ofSpelling?_of_mem_symbols hsymbol] at h
      exact ⟨_, _, isToken_of_mem_symbols hsymbol, h⟩

/-- A dotted word denotes no operator of the language if it is a defined operator or a logical
constant. -/
theorem ofTokenKind?_dottedKind_eq_none_iff (word : String) :
  GenericOperator.ofTokenKind? (dottedKind word) = none
    ↔ dottedKind word = .definedOperator ∨ dottedKind word = .logical
  := by
  unfold dottedKind
  split <;> decide

/-- The tokens of the two kinds are dotted words that the table does not have. -/
theorem isToken_word_iff :
  IsToken file text .definedOperator value ∨ IsToken file text .logical value
    ↔ GenericOperator.ofSpelling? (Text.foldCase text) = none
      ∧ isDottedWord (Text.foldCase text).toList = true ∧ value = Text.foldCase text
  := by
  have hsymbols : ∀ symbol ∈ symbols, symbol.2 ≠ .definedOperator ∧ symbol.2 ≠ .logical := by
    decide
  constructor
  · intro h
    obtain ⟨kind, hkind, htoken⟩ :
        ∃ kind, (kind = .definedOperator ∨ kind = .logical) ∧ IsToken file text kind value := by
      rcases h with h | h
      · exact ⟨_, .inl rfl, h⟩
      · exact ⟨_, .inr rfl, h⟩
    rcases cases_of_isToken htoken with ⟨hdotted, rfl, hvalue⟩ | hsymbol | hother
    · rw [GenericOperator.ofSpelling?_of_isDottedWord hdotted]
      exact ⟨(ofTokenKind?_dottedKind_eq_none_iff _).mpr hkind, hdotted, hvalue⟩
    · obtain ⟨hdefined, hlogical⟩ := hsymbols _ hsymbol
      exact absurd hkind (not_or_intro hdefined hlogical)
    · rcases hkind with rfl | rfl <;> simp at hother
  · rintro ⟨hnone, hdotted, rfl⟩
    have htoken : IsToken file text _ _ := isToken_of_isDottedWord hdotted
    rw [GenericOperator.ofSpelling?_of_isDottedWord hdotted] at hnone
    rcases (ofTokenKind?_dottedKind_eq_none_iff _).mp hnone with hkind | hkind
    · rw [hkind] at htoken
      exact .inl htoken
    · rw [hkind] at htoken
      exact .inr htoken

/-- A defined operator is a dotted word that is no spelling of an intrinsic one. -/
theorem ofOperator?_eq_definedOperator_iff {s word : String} :
  ofOperator? s = some (definedOperator word)
    ↔ GenericOperator.ofSpelling? (Text.foldCase (Text.trim s)) = none
      ∧ isDottedWord (Text.foldCase (Text.trim s)).toList = true
      ∧ word = Text.foldCase (Text.trim s)
  := by
  rw [ofOperator?]
  cases GenericOperator.ofSpelling? (Text.foldCase (Text.trim s)) with
  | none =>
    simp only [Option.ite_none_right_eq_some, Option.some.injEq, definedOperator.injEq, true_and,
      eq_comm (b := word)]
  | some operator => simp

/-- An intrinsic operator is a spelling of one. -/
theorem ofOperator?_eq_intrinsic_iff {s : String} {operator : GenericOperator} :
  ofOperator? s = some (intrinsic operator)
    ↔ GenericOperator.ofSpelling? (Text.foldCase (Text.trim s)) = some operator
  := by
  rw [ofOperator?]
  cases GenericOperator.ofSpelling? (Text.foldCase (Text.trim s)) with
  | none => simp
  | some operator => simp

/-- The logical constants are written in two ways. -/
theorem value_of_isToken_logical (h : IsToken file text .logical value) :
  value = ".true." ∨ value = ".false."
  := by
  rcases cases_of_isToken h with ⟨-, hkind, rfl⟩ | hsymbol | hother
  · unfold dottedKind at hkind
    split at hkind
    · next heq => exact .inl heq
    · next heq => exact .inr heq
    all_goals cases hkind
  · simp [symbols] at hsymbol
  · simp at hother

/-- A spelling is classified as an operator, intrinsic or defined, if it is at all. -/
theorem cases_of_ofOperator? {s : String} {spec : GenericSpec} (h : ofOperator? s = some spec) :
  (∃ word, spec = definedOperator word) ∨ ∃ operator, spec = intrinsic operator
  := by
  simp only [ofOperator?] at h
  split at h
  · next operator _ =>
    obtain rfl := Option.some.inj h
    exact .inr ⟨operator, rfl⟩
  · split at h
    · obtain rfl := Option.some.inj h
      exact .inl ⟨_, rfl⟩
    · cases h

section

variable (s file : String)

/-- A text is a defined operator exactly if it is a token of that kind, or a logical literal. -/
theorem ofOperator?_eq_definedOperator_iff_isToken (word : String) :
  ofOperator? s = some (definedOperator word)
    ↔ IsToken file (Text.trim s) .definedOperator word
      ∨ IsToken file (Text.trim s) .logical word
  := by
  rw [ofOperator?_eq_definedOperator_iff, isToken_word_iff]

/-- A text is an intrinsic operator exactly if it is a token that an operator is written by. -/
theorem ofOperator?_eq_intrinsic_iff_isToken (operator : GenericOperator) :
  ofOperator? s = some (intrinsic operator)
    ↔ ∃ kind value, IsToken file (Text.trim s) kind value
      ∧ ((∃ o, BinaryOperator.ofTokenKind? kind = some o ∧ operator = .binary o)
        ∨ ∃ o, UnaryOperator.ofTokenKind? kind = some o ∧ operator = .ofUnary o)
  := by
  have hexists : (∃ kind value, IsToken file (Text.trim s) kind value
      ∧ GenericOperator.ofTokenKind? kind = some operator) ↔ _ := exists_isToken_iff
  simp only [GenericOperator.ofTokenKind?_eq_some_iff] at hexists
  rw [ofOperator?_eq_intrinsic_iff, hexists]

/-- There is no outcome just if there is no operator of either sort. -/
theorem ofOperator?_eq_none_iff_isToken :
  ofOperator? s = none ↔ ∀ kind value, IsToken file (Text.trim s) kind value →
    kind ≠ .definedOperator ∧ kind ≠ .logical ∧ BinaryOperator.ofTokenKind? kind = none
      ∧ UnaryOperator.ofTokenKind? kind = none
  := by
  simp only [Option.eq_none_iff_forall_ne_some]
  constructor
  · intro hne kind value htoken
    refine ⟨?_, ?_, ?_, ?_⟩
    · rintro rfl
      exact hne _ ((ofOperator?_eq_definedOperator_iff_isToken s file value).mpr (.inl htoken))
    · rintro rfl
      exact hne _ ((ofOperator?_eq_definedOperator_iff_isToken s file value).mpr (.inr htoken))
    · intro o ho
      apply hne (intrinsic (.binary o))
      rw [ofOperator?_eq_intrinsic_iff_isToken s file]
      exact ⟨kind, value, htoken, .inl ⟨o, ho, rfl⟩⟩
    · intro o ho
      apply hne (intrinsic (.ofUnary o))
      rw [ofOperator?_eq_intrinsic_iff_isToken s file]
      exact ⟨kind, value, htoken, .inr ⟨o, ho, rfl⟩⟩
  · intro hall spec hspec
    rcases cases_of_ofOperator? hspec with ⟨word, rfl⟩ | ⟨operator, rfl⟩
    · rcases (ofOperator?_eq_definedOperator_iff_isToken s file word).mp hspec with h | h
      · exact (hall _ _ h).1 rfl
      · exact (hall _ _ h).2.1 rfl
    · obtain ⟨kind, value, htoken, ⟨o, ho, -⟩ | ⟨o, ho, -⟩⟩ :=
        (ofOperator?_eq_intrinsic_iff_isToken s file operator).mp hspec
      · exact (hall _ _ htoken).2.2.1 o ho
      · exact (hall _ _ htoken).2.2.2 o ho

/-- The classification of the operator `s` is that of the one token that `s` is without the blanks
around it: an intrinsic operator is what tokens of this kind denote, a word of its own is a defined
operator, and there is none in every other case.  Only the logical constants, which the tokens tell
apart, are taken for defined operators. -/
theorem classifies_operator :
  (∀ word, ofOperator? s = some (definedOperator word)
      ↔ IsToken file (Text.trim s) .definedOperator word
        ∨ IsToken file (Text.trim s) .logical word)
    ∧ (∀ operator, ofOperator? s = some (intrinsic operator)
      ↔ ∃ kind value, IsToken file (Text.trim s) kind value
        ∧ ((∃ o, BinaryOperator.ofTokenKind? kind = some o ∧ operator = .binary o)
          ∨ ∃ o, UnaryOperator.ofTokenKind? kind = some o ∧ operator = .ofUnary o))
    ∧ (ofOperator? s = none ↔ ∀ kind value, IsToken file (Text.trim s) kind value →
      kind ≠ .definedOperator ∧ kind ≠ .logical ∧ BinaryOperator.ofTokenKind? kind = none
        ∧ UnaryOperator.ofTokenKind? kind = none)
    ∧ (∀ spec, ofOperator? s = some spec →
      (∃ word, spec = definedOperator word) ∨ ∃ operator, spec = intrinsic operator)
    ∧ ∀ value, IsToken file (Text.trim s) .logical value → value = ".true." ∨ value = ".false."
  := by
  refine ⟨?_, ?_, ?_, ?_, ?_⟩
  · apply ofOperator?_eq_definedOperator_iff_isToken
  · apply ofOperator?_eq_intrinsic_iff_isToken
  · apply ofOperator?_eq_none_iff_isToken
  · intro spec
    apply cases_of_ofOperator?
  · intro value
    apply value_of_isToken_logical

end

/-- A logical constant is no defined operator as a token. -/
theorem not_forall_definedOperator_iff :
  ¬∀ s file word, ofOperator? s = some (definedOperator word)
    ↔ IsToken file (Text.trim s) .definedOperator word
  := by
  intro h
  have hclassified : ofOperator? ".true." = some (definedOperator ".true.") := by decide +kernel
  have htoken : tokenize (Text.trim ".true.") "a.f90"
      = .ok [⟨.logical, ".true.", ⟨"a.f90", 0, 6⟩⟩, Token.ending "a.f90" 6] := by
    decide +kernel
  have hdefined := (h ".true." "a.f90" ".true.").mp hclassified
  rw [IsToken, htoken, Except.ok.injEq, List.cons.injEq, Token.mk.injEq] at hdefined
  exact absurd hdefined.1.1 (by decide)

end GenericSpec

end FortranScope
