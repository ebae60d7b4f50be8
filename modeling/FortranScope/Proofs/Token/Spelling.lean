import FortranScope.Proofs.Token.Recognition

/-!
# The spelling of lexemes

A lexeme depends on its own characters only: the table of patterns gives it for these characters
alone as it does when others follow.  A lexeme that spells no token is a blank run or a comment
that goes on to the end of the line, and sequences of such lexemes make a `Lexeme.Gap`.  For any
other lexeme `Shape.Spells` says what the kind and the value of its token are.
-/

namespace FortranScope

namespace Lexeme

variable {shape : Shape} {c q : Char} {s t u v rest : List Char}

/-! ## The lexeme alone -/

/-- A pattern that matches in front of a text matches without it. -/
theorem findSome?_attempt_of_append {entries : List (Shape × Pattern)}
    (h : entries.findSome? (attempt (u ++ v)) = some (shape, t ++ v)) :
  entries.findSome? (attempt u) = some (shape, t)
  := by
  induction entries with
  | nil => contradiction
  | cons entry entries ih =>
    rw [List.findSome?_cons, attempt] at h
    rw [List.findSome?_cons, attempt]
    cases hmatch : entry.2.match? (u ++ v) with
    | none =>
      rw [hmatch] at h
      rw [Pattern.match?_eq_none_of_append hmatch]
      apply ih h
    | some r =>
      rw [hmatch] at h
      obtain ⟨rfl, rfl⟩ := Prod.mk.inj (Option.some.inj h)
      rw [Pattern.match?_of_append hmatch]
      rfl

/-- If all patterns match two texts alike, up to a change of what they leave, so does the first
one that matches. -/
theorem findSome?_attempt_eq_map {entries : List (Shape × Pattern)}
    (change : List Char → List Char)
    (h : ∀ entry ∈ entries, entry.2.match? s = (entry.2.match? t).map change) :
  entries.findSome? (attempt s)
    = (entries.findSome? (attempt t)).map fun found => (found.1, change found.2)
  := by
  induction entries with
  | nil => rfl
  | cons entry entries ih =>
    obtain ⟨hentry, hentries⟩ := List.forall_mem_cons.mp h
    rw [List.findSome?_cons, List.findSome?_cons, attempt, attempt, hentry]
    cases entry.2.match? t with
    | none => apply ih hentries
    | some rest => rfl

/-- The lexeme that a text begins with is the same without what follows it. -/
theorem best?_of_append (h : best? (u ++ v) = some (shape, t ++ v)) :
  best? u = some (shape, t)
  := findSome?_attempt_of_append h

/-- The best match is one of a pattern. -/
theorem exists_pattern_of_best? (h : best? s = some (shape, rest)) :
  ∃ p, (shape, p) ∈ patterns ∧ p.match? s = some rest
  := by
  obtain ⟨⟨_, p⟩, hmem, hattempt⟩ := List.exists_of_findSome?_eq_some h
  obtain ⟨_, hmatch, heq⟩ := Option.map_eq_some_iff.mp hattempt
  obtain ⟨rfl, rfl⟩ := Prod.mk.inj heq
  use p, hmem, hmatch

/-- What is skipped is a blank run or a comment. -/
theorem eq_of_mem_patterns_skipped {p : Pattern} (h : (.skipped, p) ∈ patterns) :
  p = .run Text.isBlank ∨ p = .seq (.char '!') (.many (.one (· ≠ '\n')))
  := by
  simpa [patterns, numbers] using h

/-- Quoted text stands between two quotes of one sort. -/
theorem exists_of_mem_patterns_quoted {p : Pattern} (h : (.quoted, p) ∈ patterns) :
  ∃ q, (q = '\x27' ∨ q = '\x22') ∧ p = .seq (.char q) (.seq (quotedText q) (.char q))
  := by
  simpa [patterns, numbers] using h

/-- Where there is no best match, no pattern matches. -/
theorem rests_eq_nil_of_best? (h : best? s = none) :
  ∀ entry ∈ patterns, entry.2.rests s = []
  := by
  intro entry hmem
  have hattempt := List.findSome?_eq_none_iff.mp h entry hmem
  apply List.head?_eq_none_iff.mp (Option.map_eq_none_iff.mp hattempt)

/-- The best match is the lexeme that is found by looking at the first character. -/
theorem exists_first?_of_best? (h : best? (c :: s) = some (shape, rest)) :
  ∃ n, first? c s = some ⟨shape, n⟩ ∧ s.drop n = rest
  := by
  rw [best?_eq] at h
  obtain ⟨⟨_, n⟩, hfirst, heq⟩ := Option.map_eq_some_iff.mp h
  obtain ⟨rfl, rfl⟩ := Prod.mk.inj heq
  use n, hfirst

/-- A lexeme has at least one character. -/
theorem exists_lexeme_of_best? (h : best? (c :: s) = some (shape, rest)) :
  ∃ text, text ≠ [] ∧ c :: s = text ++ rest
  := by
  obtain ⟨n, -, rfl⟩ := exists_first?_of_best? h
  use c :: s.take n, List.cons_ne_nil _ _
  rw [List.cons_append, List.take_append_drop]

/-- Where there is no best match, no lexeme is found. -/
theorem first?_eq_none_of_best? (h : best? (c :: s) = none) :
  first? c s = none
  := by
  rw [best?_eq] at h
  apply Option.map_eq_none_iff.mp h

/-! ## Gaps -/

/-- The text is a sequence of blanks and comments.  A comment goes on up to the end of the line,
or to the end of the whole text, of which `after` is what follows the gap. -/
inductive Gap (after : List Char) : List Char → Prop where
  | nil : Gap after []
  | blank (c : Char) {gap : List Char} (hblank : Text.isBlank c) (h : Gap after gap) :
    Gap after (c :: gap)
  | comment (body : List Char) {gap : List Char} (hbody : '\n' ∉ body)
    (hline : ∀ c ∈ (gap ++ after).head?, c = '\n') (h : Gap after gap) :
    Gap after ('!' :: body ++ gap)

/-- Blanks before a gap belong to it. -/
theorem Gap.blanks {gap after : List Char} (hs : ∀ c ∈ s, Text.isBlank c) (h : Gap after gap) :
  Gap after (s ++ gap)
  := by
  induction s with
  | nil => exact h
  | cons c s ih =>
    obtain ⟨hc, hs⟩ := List.forall_mem_cons.mp hs
    apply Gap.blank c hc (ih hs)

/-- What a run takes is what stands before the rest that it leaves. -/
theorem takeWhile_eq_of_dropWhile_eq {p : Char → Bool} (h : (u ++ v).dropWhile p = v) :
  (u ++ v).takeWhile p = u
  := by
  have hwhole := List.takeWhile_append_dropWhile (p := p) (l := u ++ v)
  rw [h] at hwhole
  apply List.append_cancel_right hwhole

/-- What is skipped is a blank run, or a comment up to the end of the line. -/
theorem blanks_or_comment_of_best? {text : List Char} (hne : text ≠ [])
    (hbest : best? (text ++ rest) = some (.skipped, rest)) :
  (∀ c ∈ text, Text.isBlank c)
    ∨ ∃ body, text = '!' :: body ∧ '\n' ∉ body ∧ ∀ c ∈ rest.head?, c = '\n'
  := by
  obtain ⟨c, text, rfl⟩ := List.exists_cons_of_ne_nil hne
  obtain ⟨p, hmem, hmatch⟩ := exists_pattern_of_best? hbest
  rcases eq_of_mem_patterns_skipped hmem with rfl | rfl
  · -- a run of blanks
    left
    rw [List.cons_append, Pattern.run, Pattern.match?_seq_one_cons, Pattern.match?_many_one,
      Option.ite_none_right_eq_some] at hmatch
    obtain ⟨hblank, hrest⟩ := hmatch
    have htext := takeWhile_eq_of_dropWhile_eq (Option.some.inj hrest)
    rw [List.forall_mem_cons]
    refine ⟨hblank, ?_⟩
    intro d hd
    rw [← htext] at hd
    apply List.mem_takeWhile_imp hd
  · -- a comment
    right
    rw [List.cons_append, match?_seq_char_cons, Pattern.match?_many_one,
      Option.ite_none_right_eq_some] at hmatch
    obtain ⟨rfl, hrest⟩ := hmatch
    have htext := takeWhile_eq_of_dropWhile_eq (Option.some.inj hrest)
    refine ⟨text, rfl, ?_, ?_⟩
    · intro hd
      rw [← htext] at hd
      simpa using List.mem_takeWhile_imp hd
    · intro d hd
      have hnot := List.head?_dropWhile_not (· ≠ '\n') (text ++ rest)
      rw [Option.some.inj hrest, Option.mem_def.mp hd] at hnot
      simpa using hnot

/-- What is skipped makes a gap longer. -/
theorem Gap.skipped {text gap after : List Char} (h : Gap after gap) (hne : text ≠ [])
    (hbest : best? (text ++ (gap ++ after)) = some (.skipped, gap ++ after)) :
  Gap after (text ++ gap)
  := by
  obtain hblanks | ⟨body, rfl, hbody, hline⟩ := blanks_or_comment_of_best? hne hbest
  · apply h.blanks hblanks
  · apply h.comment body hbody hline

end Lexeme

open Lexeme

variable {shape : Shape} {c q : Char} {s : List Char}

/-! ## The tokens that lexemes spell -/

/-- A lexeme `s` of the shape spells a token of the kind and the value.  A number, a word or a dotted
word has its letters in small for its value, and a symbol has itself.  Quoted text is its value
between quotes, with the quotes in it doubled. -/
def Shape.Spells (s : List Char) (kind : TokenKind) (value : String) : Shape → Prop
  | .skipped => False
  | .integer => kind = .integer ∧ value = String.ofList (Text.foldChars s)
  | .real => kind = .real ∧ value = String.ofList (Text.foldChars s)
  | .word => kind = .identifier ∧ value = String.ofList (Text.foldChars s)
  | .dotted => kind = dottedKind value ∧ value = String.ofList (Text.foldChars s)
  | .quoted =>
    kind = .string ∧ ∃ q, (q = '\x27' ∨ q = '\x22') ∧ s = Constant.quote q value.toList
  | .symbol k => kind = k ∧ value = String.ofList s ∧ (value, kind) ∈ symbols

/-- Quoted text that is closed at its end is its value with the quotes doubled again. -/
theorem doubleQuotes_halveQuotes {n : Nat} (h : closingLength? q s = some n) (hn : s.length ≤ n) :
  Constant.doubleQuotes q (halveQuotes q s.dropLast) ++ [q] = s
  := by
  induction s using closingLength?.induct q generalizing n with
  | case1 => cases h
  | case2 => rfl
  | case3 c hc =>
    rw [closingLength?, if_neg hc] at h
    cases h
  | case4 s m hm ih =>
    rw [closingLength?, if_pos rfl, if_pos rfl, hm] at h
    cases h
    have hs : s ≠ [] := by
      rintro rfl
      cases hm
    have hlength : s.length ≤ m := by simpa using hn
    rw [List.dropLast_cons_of_ne_nil (List.cons_ne_nil _ _), List.dropLast_cons_of_ne_nil hs,
      halveQuotes, if_pos ⟨rfl, rfl⟩, Constant.doubleQuotes, if_pos rfl, List.cons_append,
      List.cons_append, ih hm hlength]
  | case5 s hm =>
    rw [closingLength?, if_pos rfl, if_pos rfl, hm] at h
    cases h
    simp at hn
  | case6 d s hd =>
    rw [closingLength?, if_pos rfl, if_neg hd] at h
    cases h
    simp at hn
  | case7 c d s hc ih =>
    rw [closingLength?, if_neg hc] at h
    obtain ⟨m, hm, rfl⟩ := Option.map_eq_some_iff.mp h
    have hlength : (d :: s).length ≤ m := by simpa using hn
    rw [List.dropLast_cons_of_ne_nil (List.cons_ne_nil _ _), halveQuotes_cons_of_ne hc,
      Constant.doubleQuotes, if_neg hc, List.cons_append, ih hm hlength]

/-- Quoted text is quoted by the two quotes at its ends. -/
theorem quote_unquoted_of_best? (h : best? (c :: s) = some (.quoted, [])) :
  (c = '\x27' ∨ c = '\x22') ∧ c :: s = Constant.quote c (unquoted (c :: s))
  := by
  obtain ⟨p, hmem, hmatch⟩ := exists_pattern_of_best? h
  obtain ⟨q, hq, rfl⟩ := exists_of_mem_patterns_quoted hmem
  rw [match?_seq_char_cons, match?_quoted, Option.ite_none_right_eq_some] at hmatch
  obtain ⟨rfl, hclosed⟩ := hmatch
  obtain ⟨n, hn, hrest⟩ := Option.map_eq_some_iff.mp hclosed
  refine ⟨hq, ?_⟩
  rw [unquoted, Constant.quote, List.cons_append,
    doubleQuotes_halveQuotes hn (List.drop_eq_nil_iff.mp hrest)]

/-- A lexeme of a symbol is the spelling of the symbol. -/
theorem mem_symbols_of_best? {kind : TokenKind} (h : best? s = some (.symbol kind, [])) :
  (String.ofList s, kind) ∈ symbols
  := by
  obtain ⟨p, hmem, hmatch⟩ := exists_pattern_of_best? h
  obtain ⟨⟨spelling, _⟩, hsymbol, heq⟩ : ∃ symbol ∈ symbols,
      (Shape.symbol symbol.2, Pattern.literal symbol.1.toList) = (.symbol kind, p) := by
    rcases List.mem_append.mp hmem with hother | hsymbol
    · simp [numbers] at hother
    · apply List.mem_map.mp hsymbol
  cases heq
  rw [Pattern.eq_append_of_match?_literal hmatch, List.append_nil, String.ofList_toList]
  apply hsymbol

/-- A lexeme of a kind spells a token of that kind. -/
theorem spells_of_best? {kind : TokenKind} (h : best? (c :: s) = some (shape, []))
    (hkind : shape.kind? (c :: s) = some kind) :
  shape.Spells (c :: s) kind (shape.value (c :: s))
  := by
  cases shape with
  | skipped => cases hkind
  | integer | real | word | dotted =>
    obtain rfl := Option.some.inj hkind
    exact ⟨rfl, rfl⟩
  | quoted =>
    obtain rfl := Option.some.inj hkind
    obtain ⟨hq, hquote⟩ := quote_unquoted_of_best? h
    refine ⟨rfl, c, hq, ?_⟩
    rw [Shape.value, String.toList_ofList]
    apply hquote
  | symbol symbol =>
    obtain rfl := Option.some.inj hkind
    exact ⟨rfl, rfl, mem_symbols_of_best? h⟩

end FortranScope
