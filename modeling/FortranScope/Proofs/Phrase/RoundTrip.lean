import FortranScope.Proofs.Phrase.Writing

/-!
# What is written is read back

`Phrase.tokens` are the tokens that a phrase is written by.  Reading them gives the phrase
back, wherever the tokens stand, if the phrase is graded and its literals and names are
written as reading leaves them: `Phrase.Writable`.  Spans are left out of account by comparing
phrases by `Phrase.bare`.
-/

namespace FortranScope

/-- The token that has to stand in a slot. -/
def Slot.token? : Slot → Option Token
  | token t => some t
  | spareComma => none

/-- In slots for given tokens there have to stand just these. -/
theorem Slot.filterMap_map_token (ts : List Token) :
  (ts.map token).filterMap token? = ts
  := by
  rw [List.filterMap_map]
  apply List.filterMap_some

/-- `name` at no particular place. -/
def Name.bare (name : Name) : Name := ⟨name.text, default⟩

@[simp]
theorem Name.bare_bare (name : Name) : name.bare.bare = name.bare := rfl

/-- The text of the name is the one that words of either case have in common. -/
def Name.Folded (name : Name) : Prop := Text.foldCase name.text = name.text

instance (name : Name) : Decidable name.Folded :=
  inferInstanceAs (Decidable (Text.foldCase name.text = name.text))

namespace Phrase

/-- The tokens that the phrase is written by. -/
def tokens (e : Phrase) : List Token := e.slots.filterMap Slot.token?

/-- The tokens that the arguments are written by. -/
def ArgList.tokens (args : ArgList) : List Token := args.slots.filterMap Slot.token?

mutual

/-- The phrase at no particular place. -/
def bare : Phrase → Phrase
  | integer value kind _ => integer value kind default
  | real digits kind _ => real digits kind default
  | character value _ => character value default
  | logical value _ => logical value default
  | designator name => designator name.bare
  | component base name => component base.bare name.bare
  | reference callee args _ => reference callee.bare args.bare default
  | parentheses inner _ => parentheses inner.bare default
  | unary operator operand _ => unary operator operand.bare default
  | binary operator left right => binary operator left.bare right.bare

/-- The arguments at no particular place. -/
def ArgList.bare : ArgList → ArgList
  | .nil => .nil
  | .cons keyword value rest => .cons (keyword.map Name.bare) value.bare rest.bare

end

mutual

/-- Reading keeps the literals and names of the phrase: an integer is a value that is not
negative, the digits of a real literal have no underscore, and names have small letters
only. -/
def Writable : Phrase → Prop
  | integer value _ _ => 0 ≤ value ∧ value < Integer.Width.value.limit
  | real digits _ _ => '_' ∉ digits.toList
  | character _ _ => True
  | logical _ _ => True
  | designator name => name.Folded
  | component base name => base.Writable ∧ name.Folded
  | reference callee args _ => callee.Folded ∧ args.Writable
  | parentheses inner _ => inner.Writable
  | unary _ operand _ => operand.Writable
  | binary _ left right => left.Writable ∧ right.Writable

/-- Reading keeps the literals and names of the arguments. -/
def ArgList.Writable : ArgList → Prop
  | .nil => True
  | .cons keyword value rest =>
    (∀ name ∈ keyword, name.Folded) ∧ value.Writable ∧ rest.Writable

end

/-! ## Precedence does not depend on places -/

/-- Places make no difference to the operators at the right end. -/
theorem rightEdge_bare (e : Phrase) :
  e.bare.rightEdge = e.rightEdge
  := by
  match e with
  | integer _ _ _ | real _ _ _ | character _ _ | logical _ _ | designator _ | component _ _
  | reference _ _ _ | parentheses _ _ => rfl
  | unary _ operand _ => rw [bare, rightEdge, rightEdge, rightEdge_bare operand]
  | binary _ _ right => rw [bare, rightEdge, rightEdge, rightEdge_bare right]

/-- Places make no difference to what a phrase yields to. -/
theorem yieldsTo_bare {e : Phrase} {power : Power} :
  e.bare.YieldsTo power ↔ e.YieldsTo power
  := by
  rw [YieldsTo, YieldsTo, rightEdge_bare]

/-- Places make no difference to what a phrase exceeds. -/
theorem exceeds_bare {e : Phrase} {power : Power} :
  e.bare.Exceeds power ↔ e.Exceeds power
  := by
  cases e
  all_goals rfl

mutual

/-- Places make no difference to how operators are grouped. -/
theorem graded_bare (e : Phrase) :
  e.bare.Graded ↔ e.Graded
  := by
  match e with
  | integer _ _ _ | real _ _ _ | character _ _ | logical _ _ | designator _ => rfl
  | component base _ => rw [bare, Graded, Graded, graded_bare base, yieldsTo_bare]
  | reference _ args _ => rw [bare, Graded, Graded, args.graded_bare]
  | parentheses inner _ => rw [bare, Graded, Graded, graded_bare inner]
  | unary _ operand _ => rw [bare, Graded, Graded, graded_bare operand, exceeds_bare]
  | binary _ left right =>
    rw [bare, Graded, Graded, graded_bare left, graded_bare right, yieldsTo_bare, exceeds_bare]

theorem ArgList.graded_bare (args : ArgList) :
  args.bare.Graded ↔ args.Graded
  := by
  match args with
  | .nil => rfl
  | .cons _ value rest =>
    rw [ArgList.bare, ArgList.Graded, ArgList.Graded, Phrase.graded_bare value, rest.graded_bare]

end

/-- Phrases that differ only in places are graded together. -/
theorem graded_of_bare_eq {e e' : Phrase} (h : e'.bare = e.bare) (hgraded : e.Graded) :
  e'.Graded
  := by
  rw [← graded_bare, h, graded_bare]
  apply hgraded

/-! ## The tokens of each phrase -/

/-- A component is written after its base and a percent sign. -/
theorem tokens_component (base : Phrase) (name : Name) :
  (component base name).tokens
    = base.tokens ++ [.unplaced .percent "%", .unplaced .identifier name.text]
  := by
  simp [tokens, slots, Slot.token?]

/-- A reference is written as the name and the arguments in parentheses. -/
theorem tokens_reference (callee : Name) (args : ArgList) (span : Span) :
  (reference callee args span).tokens
    = .unplaced .identifier callee.text :: .unplaced .openParen "("
      :: (args.tokens ++ [.unplaced .closeParen ")"])
  := by
  simp [tokens, ArgList.tokens, slots, Slot.token?]

/-- A group is written as the phrase in parentheses. -/
theorem tokens_parentheses (inner : Phrase) (span : Span) :
  (parentheses inner span).tokens
    = .unplaced .openParen "(" :: (inner.tokens ++ [.unplaced .closeParen ")"])
  := by
  simp [tokens, slots, Slot.token?]

/-- A prefix operator is written before its operand. -/
theorem tokens_unary (operator : PrefixOperator) (operand : Phrase) (span : Span) :
  (unary operator operand span).tokens = operator.token :: operand.tokens
  := by
  simp [tokens, slots, Slot.token?]

/-- An infix operator is written between its operands. -/
theorem tokens_binary (operator : InfixOperator) (left right : Phrase) :
  (binary operator left right).tokens = left.tokens ++ operator.token :: right.tokens
  := by
  simp [tokens, slots, Slot.token?]

/-- A last argument is written after its keyword, if it has one. -/
theorem tokens_cons_nil (keyword : Option Name) (value : Phrase) :
  (ArgList.cons keyword value .nil).tokens = keywordTokens keyword ++ value.tokens
  := by
  rw [ArgList.tokens, ArgList.slots, List.filterMap_append, Slot.filterMap_map_token]
  simp [tokens, Slot.token?]

/-- A comma is written between two arguments. -/
theorem tokens_cons_cons (keyword keyword' : Option Name) (value value' : Phrase)
    (rest : ArgList) :
  (ArgList.cons keyword value (.cons keyword' value' rest)).tokens
    = keywordTokens keyword
      ++ (value.tokens
        ++ .unplaced .comma "," :: (ArgList.cons keyword' value' rest).tokens)
  := by
  rw [ArgList.tokens, ArgList.slots]
  · rw [List.filterMap_append, Slot.filterMap_map_token]
    simp [tokens, ArgList.tokens, Slot.token?]
  · intro h
    cases h

/-! ## Reading back -/

/-- A token that is written like a name of small letters is that name. -/
theorem ofSpelling_of_word {t : Token} {name : Name} (hname : name.Folded)
    (ht : t.word = (Token.unplaced .identifier name.text).word) :
  t.kind = .identifier ∧ (Name.ofSpelling t.value t.span).bare = name.bare
  := by
  obtain ⟨hkind, hvalue⟩ := Token.word_eq_iff.mp ht
  use hkind
  rw [hkind] at hvalue
  rw [hvalue rfl, Name.bare, Name.text_ofSpelling]
  change Name.mk (Text.foldCase name.text) default = _
  rw [show Text.foldCase name.text = name.text from hname]
  rfl

/-- A token written like one of a kind has that kind. -/
theorem word_of_operator {t : Token} {kind : TokenKind} {value : String}
    (ht : t.word = (Token.unplaced kind value).word) :
  t.kind = kind
  := (Token.word_eq_iff.mp ht).1

/-- A token written like an integer literal is read as that literal. -/
theorem literal?_of_integer {t : Token} {n : Int} {kind : Option String} (hn : 0 ≤ n)
    (hlimit : n < Integer.Width.value.limit)
    (ht : t.word = (Token.unplaced .integer (withKind (toString n) kind)).word) :
  literal? t = some (some (integer n kind t.span))
  := by
  obtain ⟨hkind, hvalue⟩ := Token.word_eq_iff.mp ht
  rw [hkind] at hvalue
  have hfits : Integer.Fits .value n := by
    constructor
    · have := Integer.Width.value.limit_pos
      omega
    · apply hlimit
  rw [literal?, hkind]
  simp only [integerLiteral?]
  rw [hvalue rfl, Token.unplaced, splitKind_withKind kind (Integer.underscore_notMem_toString n),
    Integer.ofText?_toString hfits]
  rfl

/-- A token written like a real literal is read as that literal. -/
theorem literal?_of_real {t : Token} {digits : String} {kind : Option String}
    (hdigits : '_' ∉ digits.toList)
    (ht : t.word = (Token.unplaced .real (withKind digits kind)).word) :
  literal? t = some (some (real digits kind t.span))
  := by
  obtain ⟨hkind, hvalue⟩ := Token.word_eq_iff.mp ht
  rw [hkind] at hvalue
  rw [literal?, hkind]
  rw [hvalue rfl, Token.unplaced, splitKind_withKind kind hdigits]

/-- A token written like a character literal is read as that literal. -/
theorem literal?_of_character {t : Token} {value : String}
    (ht : t.word = (Token.unplaced .string value).word) :
  literal? t = some (some (character value t.span))
  := by
  obtain ⟨hkind, hvalue⟩ := Token.word_eq_iff.mp ht
  rw [hkind] at hvalue
  rw [literal?, hkind]
  rw [hvalue rfl, Token.unplaced]

/-- A token written like a logical literal is read as that literal. -/
theorem literal?_of_logical {t : Token} {value : Bool}
    (ht : t.word = (Token.unplaced .logical (if value then ".true." else ".false.")).word) :
  literal? t = some (some (logical value t.span))
  := by
  obtain ⟨hkind, hvalue⟩ := Token.word_eq_iff.mp ht
  rw [hkind] at hvalue
  rw [literal?, hkind]
  rw [hvalue rfl, Token.unplaced]
  cases value
  all_goals rfl

/-- Whatever tokens are written like `e` spell it, but for its places. -/
def Restored (e : Phrase) : Prop :=
  ∀ ts : List Token, ts.map Token.word = e.tokens.map Token.word →
    ∃ e' : Phrase, e'.Spelled ts ∧ e'.bare = e.bare

/-- Whatever tokens are written like the arguments spell them, but for their places. -/
def ArgList.Restored (args : ArgList) : Prop :=
  ∀ ts : List Token, ts.map Token.word = args.tokens.map Token.word →
    ∃ args' : ArgList, args'.Spelled ts ∧ args'.bare = args.bare

namespace Restored

/-- A phrase of a single token is restored if every token written like it is read as the phrase. -/
theorem literal {e : Phrase} {written : Token} (he : e.tokens = [written])
    (hliteral : ∀ t : Token, t.word = written.word →
      ∃ e', literal? t = some (some e') ∧ e'.bare = e.bare) :
  e.Restored
  := by
  intro ts hts
  rw [he] at hts
  obtain ⟨t, rfl, ht⟩ := List.map_eq_singleton_iff.mp hts
  obtain ⟨e', he', hbare⟩ := hliteral t ht
  exact ⟨e', (spelled_of_literal? he').1, hbare⟩

/-- A component is restored if its base is and its name is in small letters. -/
theorem component {base : Phrase} {name : Name} (hbase : base.Restored) (hname : name.Folded) :
  (component base name).Restored
  := by
  intro ts hts
  rw [tokens_component, List.map_append, List.map_eq_append_iff] at hts
  obtain ⟨us, vs, rfl, hus, hvs⟩ := hts
  obtain ⟨percent, ws, rfl, hpercent, hws⟩ := List.map_eq_cons_iff.mp hvs
  obtain ⟨word, rfl, hword⟩ := List.map_eq_singleton_iff.mp hws
  obtain ⟨base', hspelled, hbare⟩ := hbase us hus
  obtain ⟨hkind, hnameBare⟩ := ofSpelling_of_word hname hword
  use .component base' (Name.ofSpelling word.value word.span)
  constructor
  · use us, percent, word, rfl, hspelled, word_of_operator hpercent, hkind
  · rw [bare, bare, hbare, hnameBare]

/-- A reference is restored if its name is in small letters and its arguments are restored. -/
theorem reference {callee : Name} {args : ArgList} {span : Span} (hcallee : callee.Folded)
    (hargs : args.Restored) :
  (reference callee args span).Restored
  := by
  intro ts hts
  rw [tokens_reference] at hts
  obtain ⟨word, us, rfl, hword, hus⟩ := List.map_eq_cons_iff.mp hts
  obtain ⟨opening, vs, rfl, hopening, hvs⟩ := List.map_eq_cons_iff.mp hus
  rw [List.map_append, List.map_eq_append_iff] at hvs
  obtain ⟨ws, xs, rfl, hws, hxs⟩ := hvs
  obtain ⟨closing, rfl, hclosing⟩ := List.map_eq_singleton_iff.mp hxs
  obtain ⟨hkind, hcalleeBare⟩ := ofSpelling_of_word hcallee hword
  obtain ⟨args', hspelled, hbare⟩ := hargs ws hws
  refine ⟨.reference (Name.ofSpelling word.value word.span) args'
    ((Name.ofSpelling word.value word.span).span.through closing.span), ?_, ?_⟩
  · exact ⟨word, opening, ws, closing, rfl, hkind, rfl, word_of_operator hopening, hspelled,
      word_of_operator hclosing, rfl⟩
  · rw [bare, bare, hbare, hcalleeBare]

/-- A group is restored if the phrase in it is. -/
theorem parentheses {inner : Phrase} {span : Span} (hinner : inner.Restored) :
  (parentheses inner span).Restored
  := by
  intro ts hts
  rw [tokens_parentheses] at hts
  obtain ⟨opening, us, rfl, hopening, hus⟩ := List.map_eq_cons_iff.mp hts
  rw [List.map_append, List.map_eq_append_iff] at hus
  obtain ⟨vs, ws, rfl, hvs, hws⟩ := hus
  obtain ⟨closing, rfl, hclosing⟩ := List.map_eq_singleton_iff.mp hws
  obtain ⟨inner', hspelled, hbare⟩ := hinner vs hvs
  refine ⟨.parentheses inner' (opening.span.through closing.span), ?_, ?_⟩
  · exact ⟨opening, vs, closing, rfl, word_of_operator hopening, hspelled,
      word_of_operator hclosing, rfl⟩
  · rw [bare, bare, hbare]

/-- A prefix operation is restored if its operand is. -/
theorem unary {operator : PrefixOperator} {operand : Phrase} {span : Span}
    (hoperand : operand.Restored) :
  (unary operator operand span).Restored
  := by
  intro ts hts
  rw [tokens_unary] at hts
  obtain ⟨t, us, rfl, ht, hus⟩ := List.map_eq_cons_iff.mp hts
  obtain ⟨operand', hspelled, hbare⟩ := hoperand us hus
  refine ⟨.unary operator operand' (t.span.through operand'.span), ?_, ?_⟩
  · exact ⟨t, us, rfl, PrefixOperator.ofToken?_eq_some_iff.mpr ht, hspelled, rfl⟩
  · rw [bare, bare, hbare]

/-- An infix operation is restored if both operands are. -/
theorem binary {operator : InfixOperator} {left right : Phrase} (hleft : left.Restored)
    (hright : right.Restored) :
  (binary operator left right).Restored
  := by
  intro ts hts
  rw [tokens_binary, List.map_append, List.map_cons, List.map_eq_append_iff] at hts
  obtain ⟨us, vs, rfl, hus, hvs⟩ := hts
  obtain ⟨t, ws, rfl, ht, hws⟩ := List.map_eq_cons_iff.mp hvs
  obtain ⟨left', hspelledLeft, hbareLeft⟩ := hleft us hus
  obtain ⟨right', hspelledRight, hbareRight⟩ := hright ws hws
  use .binary operator left' right'
  constructor
  · use us, t, ws, rfl, hspelledLeft, InfixOperator.ofToken?_eq_some_iff.mpr ht
  · rw [bare, bare, hbareLeft, hbareRight]

end Restored

/-- Tokens written like a keyword spell it, but for its place. -/
theorem KeywordSpelled.of_word {keyword : Option Name} {ts : List Token}
    (hw : ∀ name ∈ keyword, name.Folded)
    (h : ts.map Token.word = (keywordTokens keyword).map Token.word) :
  ∃ keyword', KeywordSpelled keyword' ts ∧ keyword'.map Name.bare = keyword.map Name.bare
  := by
  cases keyword with
  | none =>
    use none
    constructor
    · apply List.map_eq_nil_iff.mp h
    · rfl
  | some keyword =>
    obtain ⟨word, us, rfl, hword, hus⟩ := List.map_eq_cons_iff.mp h
    obtain ⟨sign, vs, rfl, hsign, hvs⟩ := List.map_eq_cons_iff.mp hus
    obtain rfl := List.map_eq_nil_iff.mp hvs
    obtain ⟨hkind, hname⟩ := ofSpelling_of_word (hw keyword rfl) hword
    use some (Name.ofSpelling word.value word.span)
    constructor
    · use word, sign, rfl, hkind, word_of_operator hsign
    · rw [Option.map_some, hname, Option.map_some]

namespace ArgList.Restored

variable {keyword : Option Name} {value : Phrase}

/-- A last argument is restored if its value is and its keyword is in small letters. -/
theorem last (hkeyword : ∀ name ∈ keyword, name.Folded) (hvalue : value.Restored) :
  (ArgList.cons keyword value .nil).Restored
  := by
  intro ts hts
  rw [tokens_cons_nil, List.map_append, List.map_eq_append_iff] at hts
  obtain ⟨ks, us, rfl, hks, hus⟩ := hts
  obtain ⟨keyword', hspelledKeyword, hbareKeyword⟩ := KeywordSpelled.of_word hkeyword hks
  obtain ⟨value', hspelledValue, hbareValue⟩ := hvalue us hus
  use .cons keyword' value' .nil
  constructor
  · apply spelled_singleton hspelledKeyword hspelledValue
  · rw [ArgList.bare, hbareKeyword, hbareValue]
    rfl

/-- An argument before others is restored if its value and they are. -/
theorem cons {keyword' : Option Name} {value' : Phrase} {rest : ArgList}
    (hkeyword : ∀ name ∈ keyword, name.Folded) (hvalue : value.Restored)
    (hrest : (ArgList.cons keyword' value' rest).Restored) :
  (ArgList.cons keyword value (.cons keyword' value' rest)).Restored
  := by
  intro ts hts
  rw [tokens_cons_cons, List.map_append, List.map_append, List.map_cons,
    List.map_eq_append_iff] at hts
  obtain ⟨ks, vs, rfl, hks, hvs⟩ := hts
  obtain ⟨us, ws, rfl, hus, hws⟩ := List.map_eq_append_iff.mp hvs
  obtain ⟨comma, xs, rfl, hcomma, hxs⟩ := List.map_eq_cons_iff.mp hws
  obtain ⟨first, hspelledKeyword, hbareKeyword⟩ := KeywordSpelled.of_word hkeyword hks
  obtain ⟨operand, hspelledValue, hbareValue⟩ := hvalue us hus
  obtain ⟨others, hspelledRest, hbareRest⟩ := hrest xs hxs
  use .cons first operand others
  constructor
  · use ks, us, comma :: xs, rfl, hspelledKeyword, hspelledValue
    right
    use comma, xs, rfl, word_of_operator hcomma
  · rw [ArgList.bare, ArgList.bare, hbareKeyword, hbareValue, hbareRest]

end ArgList.Restored

mutual

/-- Tokens that are written like a phrase spell it. -/
theorem restored (e : Phrase) (hw : e.Writable) :
  e.Restored
  := by
  match e with
  | .integer n kind _ =>
    apply Restored.literal rfl
    intro t ht
    use integer n kind t.span, literal?_of_integer hw.1 hw.2 ht
    rfl
  | .real digits kind _ =>
    apply Restored.literal rfl
    intro t ht
    use real digits kind t.span, literal?_of_real hw ht
    rfl
  | .character value _ =>
    apply Restored.literal rfl
    intro t ht
    use character value t.span, literal?_of_character ht
    rfl
  | .logical value _ =>
    apply Restored.literal rfl
    intro t ht
    use logical value t.span, literal?_of_logical ht
    rfl
  | .designator name =>
    apply Restored.literal rfl
    intro t ht
    obtain ⟨hkind, hname⟩ := ofSpelling_of_word hw ht
    use designator (Name.ofSpelling t.value t.span), literal?_of_identifier hkind
    rw [bare, bare, hname]
  | .component base _ => exact (restored base hw.1).component hw.2
  | .reference _ args _ => exact .reference hw.1 (args.restored hw.2)
  | .parentheses inner _ => exact (restored inner hw).parentheses
  | .unary _ operand _ => exact (restored operand hw).unary
  | .binary _ left right => exact (restored left hw.1).binary (restored right hw.2)

/-- Tokens that are written like an argument list spell it. -/
theorem ArgList.restored (args : ArgList) (hw : args.Writable) :
  args.Restored
  := by
  match args with
  | .nil =>
    intro ts hts
    exact ⟨.nil, List.map_eq_nil_iff.mp hts, rfl⟩
  | .cons _ value .nil =>
    obtain ⟨hkeyword, hvalue, -⟩ := hw
    exact .last hkeyword (value.restored hvalue)
  | .cons _ value (.cons keyword' value' rest) =>
    obtain ⟨hkeyword, hvalue, hrest⟩ := hw
    exact .cons hkeyword (value.restored hvalue)
      ((ArgList.cons keyword' value' rest).restored hrest)

end

/-- A graded phrase is read back from the tokens that are written like it. -/
theorem exists_ofTokens {e : Phrase} {ts : List Token} {eof : Token} (hw : e.Writable)
    (hgraded : e.Graded) (hts : ts.map Token.word = e.tokens.map Token.word)
    (heof : eof.kind = .eof) :
  ∃ e', ofTokens (ts ++ [eof]) = .ok e' ∧ e'.bare = e.bare
  := by
  obtain ⟨e', hspelled, hbare⟩ := e.restored hw ts hts
  use e', ofTokens_of_spelled hspelled (graded_of_bare_eq hbare hgraded) heof

/-- A graded phrase is read back from the tokens that it is written by, wherever they stand.
So phrases that are written alike are alike. -/
theorem ofTokens_tokens {e : Phrase} (hw : e.Writable) (hgraded : e.Graded) :
  (∀ ts eof, ts.map Token.word = e.tokens.map Token.word → eof.kind = .eof →
      ∃ e', ofTokens (ts ++ [eof]) = .ok e' ∧ e'.bare = e.bare)
    ∧ ∀ f : Phrase, f.Writable → f.Graded →
      f.tokens.map Token.word = e.tokens.map Token.word → f.bare = e.bare
  := by
  constructor
  · intro ts eof hts heof
    apply exists_ofTokens hw hgraded hts heof
  · intro f hf hfgraded htokens
    have heof : (Token.unplaced .eof "EOF").kind = .eof := rfl
    obtain ⟨e', he', hbareE⟩ := exists_ofTokens hw hgraded rfl heof
    obtain ⟨f', hf', hbareF⟩ := exists_ofTokens hf hfgraded htokens.symm heof
    rw [he'] at hf'
    rw [← hbareE, ← hbareF, Except.ok.inj hf']

/-- `-a**2_4 .my. f(k=.true.)`. -/
theorem ofTokens_tokens_negated_power :
  let e := binary (.defined ".my.")
    (unary (.intrinsic .negate) (binary (.intrinsic .power) (designator ⟨"a", default⟩)
      (integer 2 (some "4") default)) default)
    (reference ⟨"f", default⟩ (.cons (some ⟨"k", default⟩) (logical true default) .nil) default)
  e.Writable ∧ e.Graded
    ∧ ∃ e', ofTokens (e.tokens ++ [.unplaced .eof "EOF"]) = .ok e' ∧ e'.bare = e.bare
  := by
  intro e
  have hw : e.Writable := by
    refine ⟨⟨?_, by decide, by decide⟩, ?_, ?_, trivial, trivial⟩
    · change Name.Folded _
      decide
    · decide
    · rintro name ⟨⟩
      decide
  have hgraded : e.Graded := by decide
  exact ⟨hw, hgraded, (ofTokens_tokens hw hgraded).1 e.tokens _ rfl rfl⟩

end Phrase

end FortranScope
