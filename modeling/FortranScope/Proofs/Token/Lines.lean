import FortranScope.Proofs.Token.Partition

/-!
# Lines

Lexing is compositional at ends of lines.  Only blanks go on from one line to the next, and they
may as well be skipped one after another; all other lexemes of a source that is read up to its end
are the same with a further line after it (`best?_append_line`).  And a text has the same tokens
wherever it stands, in other places (`tokensFrom_add`).  So the tokens of a source with a line end
and a text after it are the tokens of the source and then those of the text, moved on.
-/

namespace FortranScope

/-! ## Places moved on -/

/-- `s` moved on by `n` bytes. -/
def Span.shift (n : Nat) (s : Span) : Span := ⟨s.file, s.start + n, s.stop + n⟩

/-- `p` moved on by `n` bytes. -/
def Position.shift (n : Nat) (p : Position) : Position := ⟨p.offset + n, p.file⟩

/-- `t` moved on by `n` bytes. -/
def Token.shift (n : Nat) (t : Token) : Token := ⟨t.kind, t.value, t.span.shift n⟩

/-- `d` moved on by `n` bytes. -/
def Diagnostic.shift (n : Nat) (d : Diagnostic) : Diagnostic :=
  ⟨d.cause, d.position.shift n, d.severity⟩

open Lexeme

variable {file : String} {shape : Shape} {c q : Char} {s text rest : List Char}

/-- A token that is shifted has the same kind and value. -/
theorem shift_token? (n : Nat) (shape : Shape) (text : List Char) (span : Span) :
  (shape.token? text span).map (Token.shift n) = shape.token? text (span.shift n)
  := by
  rw [Shape.token?, Shape.token?, Option.map_map]
  rfl

/-- A text has the same tokens or the same error wherever it stands. -/
theorem tokensFrom_add (file : String) (offset n : Nat) (s : List Char) :
  tokensFrom file (offset + n) s
    = match tokensFrom file offset s with
      | .ok tokens => .ok (tokens.map (Token.shift n))
      | .error d => .error (d.shift n)
  := by
  induction s using lexeme_induction generalizing offset with
  | hnil =>
    rw [tokensFrom_nil, tokensFrom_nil]
    rfl
  | hstuck c s hbest =>
    rw [tokensFrom_of_best?_eq_none hbest, tokensFrom_of_best?_eq_none hbest]
    rfl
  | hlexeme shape text rest hne hbest ih =>
    have hspan : (⟨file, offset + n, offset + n + byteLength text⟩ : Span)
        = Span.shift n ⟨file, offset, offset + byteLength text⟩ := by
      rw [Span.shift, Nat.add_right_comm]
    rw [tokensFrom_of_best? hne hbest, tokensFrom_of_best? hne hbest, hspan, ← shift_token?,
      Nat.add_right_comm, ih]
    cases tokensFrom file (offset + byteLength text) rest with
    | error d => rfl
    | ok tokens =>
      simp only [Except.map, List.map_append, Option.toList_map]

/-! ## Blanks -/

/-- Blanks are skipped one at a time. -/
theorem tokensFrom_blank (hc : Text.isBlank c) (file : String) (offset : Nat) (s : List Char) :
  tokensFrom file offset (c :: s) = tokensFrom file (offset + c.utf8Size) s
  := by
  have hrun (offset : Nat) (c : Char) (s : List Char) (hc : Text.isBlank c) :
      tokensFrom file offset (c :: s)
        = tokensFrom file (offset + byteLength (c :: s.takeWhile Text.isBlank))
            (s.dropWhile Text.isBlank) := by
    have hbest : best? (c :: s.takeWhile Text.isBlank ++ s.dropWhile Text.isBlank)
        = some (.skipped, s.dropWhile Text.isBlank) := by
      rw [List.cons_append, List.takeWhile_append_dropWhile, best?_eq, first?, if_pos hc,
        Option.map_some, drop_runLength]
    nth_rewrite 1 [← List.takeWhile_append_dropWhile (p := Text.isBlank) (l := s)]
    rw [← List.cons_append, tokensFrom_of_best? (List.cons_ne_nil _ _) hbest]
    cases tokensFrom file _ (s.dropWhile Text.isBlank) <;> rfl
  rw [hrun offset c s hc]
  cases s with
  | nil => rfl
  | cons d s =>
    rw [List.takeWhile_cons, List.dropWhile_cons]
    split
    · next hd => rw [hrun _ d s hd, byteLength_cons, Nat.add_assoc]
    · rfl

/-- Leading blanks only shift what is read after them. -/
theorem tokensFrom_blanks (htext : ∀ c ∈ text, Text.isBlank c) (file : String) (offset : Nat)
    (s : List Char) :
  tokensFrom file offset (text ++ s) = tokensFrom file (offset + byteLength text) s
  := by
  induction text generalizing offset with
  | nil => rfl
  | cons c text ih =>
    obtain ⟨hc, htext⟩ := List.forall_mem_cons.mp htext
    rw [List.cons_append, tokensFrom_blank hc, ih htext, byteLength_cons, Nat.add_assoc]

/-! ## Where blanks cannot be -/

namespace Lexeme

/-- A literal text avoids the characters that are not in it. -/
theorem avoids_literal (hs : c ∉ s) :
  (Pattern.literal s).Avoids c
  := by
  induction s with
  | nil => trivial
  | cons d s ih =>
    rw [List.mem_cons, not_or] at hs
    exact ⟨decide_eq_false hs.1, ih hs.2⟩

/-- A blank differs from what is not blank. -/
theorem ne_of_isBlank {d : Char} (hc : Text.isBlank c) (hd : Text.isBlank d = false) :
  c ≠ d
  := by
  rintro rfl
  rw [hd] at hc
  contradiction

/-- A blank is neither a letter nor a digit. -/
theorem isAlphanum_of_isBlank (hc : Text.isBlank c) :
  c.isAlphanum = false
  := by
  by_contra halphanum
  have hnot := (notSkipped_of_isAlphanum (eq_true_of_ne_false halphanum)).1
  rw [hc] at hnot
  contradiction

/-- No word goes on with a blank. -/
theorem isWordChar_of_isBlank (hc : Text.isBlank c) :
  isWordChar c = false
  := by
  rw [isWordChar, isAlphanum_of_isBlank hc, decide_eq_false (ne_of_isBlank hc (by decide))]
  rfl

/-- Numbers avoid blanks. -/
theorem avoids_of_mem_numbers {entry : Shape × Pattern} (hc : Text.isBlank c)
    (h : entry ∈ numbers) :
  entry.2.Avoids c
  := by
  have hne {d : Char} (hd : Text.isBlank d = false) : decide (c = d) = false :=
    decide_eq_false (ne_of_isBlank hc hd)
  have hdigit : c.isDigit = false := (Bool.or_eq_false_iff.mp (isAlphanum_of_isBlank hc)).2
  have hletter : isExponentLetter c = false := by
    rw [isExponentLetter, hne (by decide), hne (by decide), hne (by decide), hne (by decide)]
    rfl
  have hsign : isSign c = false := by
    rw [isSign, hne (by decide), hne (by decide)]
    rfl
  have hpoint : decide (c = '.') = false := hne (by decide)
  have hunderscore : decide (c = '_') = false := hne (by decide)
  simp only [numbers, List.mem_cons, List.not_mem_nil, or_false] at h
  rcases h with rfl | rfl | rfl
  all_goals
    simp only [digits, fraction, exponent, kind, Pattern.run, Pattern.char, Pattern.optional,
      Pattern.Avoids, hdigit, hletter, hsign, isWordChar_of_isBlank hc, hpoint, hunderscore,
      and_self]

/-- There are no blanks in symbols. -/
theorem notMem_of_mem_symbols {symbol : String × TokenKind} (hc : Text.isBlank c)
    (h : symbol ∈ symbols) :
  c ∉ symbol.1.toList
  := by
  intro hmem
  -- a look at the table
  have hsolid : ∀ symbol ∈ symbols, symbol.1.toList.all fun d => !Text.isBlank d := by
    decide +kernel
  have hblank := List.all_eq_true.mp (hsolid symbol h) c hmem
  rw [hc] at hblank
  contradiction

/-- Numbers, words, dotted words and symbols avoid blanks. -/
theorem avoids_of_isBlank {p : Pattern} (hc : Text.isBlank c) (h : (shape, p) ∈ patterns)
    (hskipped : shape ≠ .skipped) (hquoted : shape ≠ .quoted) :
  p.Avoids c
  := by
  have halpha : c.isAlpha = false := (Bool.or_eq_false_iff.mp (isAlphanum_of_isBlank hc)).1
  have hpoint : decide (c = '.') = false := decide_eq_false (ne_of_isBlank hc (by decide))
  simp only [patterns, List.mem_append, List.mem_cons, List.not_mem_nil, or_false,
    Prod.mk.injEq] at h
  rcases h with (((h | h) | hnumber) | (⟨-, rfl⟩ | ⟨-, rfl⟩ | h | h)) | hsymbol
  · exact absurd h.1 hskipped
  · exact absurd h.1 hskipped
  · apply avoids_of_mem_numbers hc hnumber
  · exact ⟨halpha, isWordChar_of_isBlank hc⟩
  · exact ⟨hpoint, ⟨halpha, halpha⟩, hpoint⟩
  · exact absurd h.1 hquoted
  · exact absurd h.1 hquoted
  · obtain ⟨symbol, hmem, heq⟩ := List.mem_map.mp hsymbol
    obtain ⟨-, rfl⟩ := Prod.mk.inj heq
    apply avoids_literal (notMem_of_mem_symbols hc hmem)

/-! ## Lexemes at the end of a line -/

/-- All patterns but those of blanks and of quoted text avoid ends of lines. -/
theorem avoids_of_mem_patterns {p : Pattern} (h : (shape, p) ∈ patterns) :
  p.Avoids '\n' ∨ p = .run Text.isBlank
    ∨ ∃ q, (q = '\x27' ∨ q = '\x22') ∧ p = .seq (.char q) (.seq (quotedText q) (.char q))
  := by
  by_cases hskipped : shape = .skipped
  · subst hskipped
    rcases eq_of_mem_patterns_skipped h with rfl | rfl
    · exact .inr (.inl rfl)
    · left
      simp [Pattern.Avoids, Pattern.char]
  · by_cases hquoted : shape = .quoted
    · subst hquoted
      exact .inr (.inr (exists_of_mem_patterns_quoted h))
    · exact .inl (avoids_of_isBlank (by decide) h hskipped hquoted)

/-- A quote begins a lexeme that ends with the closing quote. -/
theorem first?_quote (hq : q = '\x27' ∨ q = '\x22') (s : List Char) :
  first? q s = (closingLength? q s).map (⟨.quoted, ·⟩)
  := by
  rcases hq with rfl | rfl <;> rfl

/-- The closing quote is in the text. -/
theorem length_of_closingLength? {n : Nat} (h : closingLength? q s = some n) :
  n ≤ s.length
  := by
  induction s using closingLength?.induct q generalizing n with
  | case1 => cases h
  | case2 =>
    rw [closingLength?, if_pos rfl] at h
    cases h
    apply Nat.le_refl
  | case3 c hc =>
    rw [closingLength?, if_neg hc] at h
    cases h
  | case4 s m hm ih =>
    rw [closingLength?, if_pos rfl, if_pos rfl, hm] at h
    cases h
    apply Nat.succ_le_succ (Nat.succ_le_succ (ih hm))
  | case5 s hm =>
    rw [closingLength?, if_pos rfl, if_pos rfl, hm] at h
    cases h
    simp
  | case6 d s hd =>
    rw [closingLength?, if_pos rfl, if_neg hd] at h
    cases h
    simp
  | case7 c d s hc ih =>
    rw [closingLength?, if_neg hc] at h
    obtain ⟨m, hm, rfl⟩ := Option.map_eq_some_iff.mp h
    apply Nat.succ_le_succ (ih hm)

/-- Quoted text that is closed is not closed by a quote in a further line, unless its quote is
followed by one that opens a text which is never closed. -/
theorem closingLength?_append_line {n : Nat} (hq : q = '\x27' ∨ q = '\x22')
    (h : closingLength? q s = some n) (hrest : s.drop n ≠ [] → best? (s.drop n) ≠ none)
    (t : List Char) :
  closingLength? q (s ++ '\n' :: t) = some n
  := by
  have hline : '\n' ≠ q := by
    rcases hq with rfl | rfl <;> decide
  induction s using closingLength?.induct q generalizing n with
  | case1 => cases h
  | case2 =>
    rw [← h, closingLength?, if_pos rfl]
    apply closingLength?_close
    rintro d ⟨⟩
    exact hline
  | case3 c hc =>
    rw [closingLength?, if_neg hc] at h
    cases h
  | case4 s m hm ih =>
    rw [closingLength?, if_pos rfl, if_pos rfl, hm] at h
    cases h
    rw [List.cons_append, List.cons_append, closingLength?, if_pos rfl, if_pos rfl, ih hm hrest]
  | case5 s hm =>
    rw [closingLength?, if_pos rfl, if_pos rfl, hm] at h
    cases h
    -- the second quote would begin a text that is never closed
    apply absurd _ (hrest (List.cons_ne_nil _ _))
    rw [List.drop_succ_cons, List.drop_zero, best?_eq, first?_quote hq, hm, Option.map_none,
      Option.map_none]
  | case6 d s hd =>
    rw [closingLength?, if_pos rfl, if_neg hd] at h
    rw [← h, List.cons_append, List.cons_append, closingLength?, if_pos rfl, if_neg hd]
  | case7 c d s hc ih =>
    rw [closingLength?, if_neg hc] at h
    obtain ⟨m, hm, rfl⟩ := Option.map_eq_some_iff.mp h
    rw [List.cons_append, List.cons_append, closingLength?, if_neg hc, ← List.cons_append,
      ih hm hrest]
    rfl

/-- A pattern that is not the one of blanks matches the same with a further line after the text,
if the text goes on with a lexeme after the first one. -/
theorem match?_append_line {p : Pattern} (hp : (shape, p) ∈ patterns) (hc : ¬ Text.isBlank c)
    {lexeme : Lexeme} (hfirst : first? c s = some lexeme)
    (hrest : s.drop lexeme.more ≠ [] → best? (s.drop lexeme.more) ≠ none) (t : List Char) :
  p.match? (c :: s ++ '\n' :: t) = (p.match? (c :: s)).map (· ++ '\n' :: t)
  := by
  rcases avoids_of_mem_patterns hp with havoids | rfl | ⟨q, hq, rfl⟩
  · apply Pattern.match?_append_of_avoids havoids
  · rw [List.cons_append, match?_run_cons, match?_run_cons, if_neg hc, if_neg hc, Option.map_none]
  · rw [List.cons_append, match?_seq_char_cons, match?_seq_char_cons]
    split
    · next hcq =>
      rw [hcq, first?_quote hq] at hfirst
      obtain ⟨n, hclosing, rfl⟩ := Option.map_eq_some_iff.mp hfirst
      have hle := length_of_closingLength? hclosing
      rw [match?_quoted, match?_quoted, hclosing, closingLength?_append_line hq hclosing hrest,
        Option.map_some, Option.map_some, Option.map_some, List.drop_append_of_le_length hle]
    · rfl

/-- A lexeme that is no blank run is the same with a further line after the text, if the text goes
on with a lexeme after it. -/
theorem best?_append_line (hc : ¬ Text.isBlank c) (h : best? (c :: s) = some (shape, rest))
    (hrest : rest ≠ [] → best? rest ≠ none) (t : List Char) :
  best? (c :: s ++ '\n' :: t) = some (shape, rest ++ '\n' :: t)
  := by
  obtain ⟨n, hfirst, rfl⟩ := exists_first?_of_best? h
  have hbest : best? (c :: s ++ '\n' :: t)
      = (best? (c :: s)).map fun found => (found.1, found.2 ++ '\n' :: t) := by
    apply findSome?_attempt_eq_map (· ++ '\n' :: t)
    intro entry hmem
    apply match?_append_line hmem hc hfirst hrest
  rw [hbest, h, Option.map_some]

end Lexeme

/-! ## The tokens of a source and a further line -/

/-- A lexeme after which a text is read up to its end is the same with a further line. -/
theorem Reads.best?_append_line {offset : Nat} {tokens : List Token} {w : List Char}
    (h : Reads file [] offset rest tokens) (hc : ¬ Text.isBlank c)
    (hbest : best? (c :: w ++ (rest ++ [])) = some (shape, rest ++ [])) (t : List Char) :
  best? (c :: w ++ (rest ++ '\n' :: t)) = some (shape, rest ++ '\n' :: t)
  := by
  rw [List.append_nil] at hbest
  rw [← List.append_assoc]
  apply Lexeme.best?_append_line hc hbest
  intro hne
  obtain ⟨d, rest, rfl⟩ := List.exists_cons_of_ne_nil hne
  have hnext := h.best?_ne_none
  rwa [List.append_nil] at hnext

/-- A source that is read up to its end is read in the same way with a further line after it. -/
theorem Reads.tokensFrom_append_line {offset : Nat} {tokens : List Token}
    (h : Reads file [] offset s tokens) (t : List Char) :
  tokensFrom file offset (s ++ '\n' :: t)
    = (tokensFrom file (offset + byteLength s) ('\n' :: t)).map (tokens ++ ·)
  := by
  induction h with
  | nil offset =>
    rw [List.nil_append, byteLength_nil, Nat.add_zero]
    cases tokensFrom file offset ('\n' :: t) <;> rfl
  | @skip offset text rest tokens hne hbest h ih =>
    rw [List.append_assoc, byteLength_append, ← Nat.add_assoc, ← ih]
    obtain hblanks | ⟨body, rfl, -, -⟩ := blanks_or_comment_of_best? hne hbest
    · apply tokensFrom_blanks hblanks
    · rw [tokensFrom_of_best? hne (h.best?_append_line (by decide) hbest t)]
      cases tokensFrom file _ (rest ++ '\n' :: t) <;> rfl
  | @token offset text rest tokens shape token hne hbest htoken h ih =>
    obtain ⟨c, w, rfl⟩ := List.exists_cons_of_ne_nil hne
    have hc : ¬ Text.isBlank c := by
      intro hblank
      obtain ⟨n, hfirst, -⟩ := exists_first?_of_best? hbest
      rw [first?, if_pos hblank] at hfirst
      cases hfirst
      cases htoken
    rw [List.append_assoc, tokensFrom_of_best? hne (h.best?_append_line hc hbest t), ih, htoken,
      byteLength_append, Nat.add_assoc]
    cases tokensFrom file _ ('\n' :: t) <;> rfl

/-- The tokens of a source with a further line after it are those of the source without the end
marker and those of the line moved on, and an error in the line is the one that it has by itself,
moved on. -/
theorem tokenize_append_line {source : String} {tokens : List Token}
    (h : tokenize source file = .ok tokens) (line : String) :
  ∃ found, tokens = found ++ [Token.ending file source.utf8ByteSize]
    ∧ (∀ t ∈ found, t.kind ≠ .eof)
    ∧ tokenize (source ++ "\n" ++ line) file
      = match tokenize line file with
        | .ok more => .ok (found ++ more.map (Token.shift (source.utf8ByteSize + 1)))
        | .error d => .error (d.shift (source.utf8ByteSize + 1))
  := by
  obtain ⟨found, rfl, hreads⟩ := exists_reads_of_tokenize h
  refine ⟨found, rfl, fun t ht => (hreads.inPlace t ht).kind_ne_eof, ?_⟩
  have hlist : (source ++ "\n" ++ line).toList = source.toList ++ '\n' :: line.toList := by
    simp
  have hplace : 0 + source.utf8ByteSize + '\n'.utf8Size = 0 + (source.utf8ByteSize + 1) := by
    rw [Nat.add_assoc]
    rfl
  rw [tokenize, hlist, hreads.tokensFrom_append_line, tokensFrom_blank (by decide),
    byteLength_toList, hplace, tokensFrom_add, ← tokenize]
  cases tokenize line file <;> rfl

/-- After a line that ends with a comment, text is quoted or left open as by itself. -/
theorem tokenize_append_line_quoted :
  let source := "x='a''b' ! it's"
  let found : List Token := [⟨.identifier, "x", ⟨"a.f90", 0, 1⟩⟩,
    ⟨.assignment, "=", ⟨"a.f90", 1, 2⟩⟩, ⟨.string, "a'b", ⟨"a.f90", 2, 8⟩⟩]
  tokenize source "a.f90" = .ok (found ++ [Token.ending "a.f90" 15])
    ∧ tokenize (source ++ "\n" ++ "'c'") "a.f90"
      = .ok (found ++ [⟨.string, "c", ⟨"a.f90", 16, 19⟩⟩, Token.ending "a.f90" 19])
    ∧ tokenize (source ++ "\n" ++ " 'c") "a.f90"
      = .error (.error (.unrecognisedToken "'") ⟨17, "a.f90"⟩)
  := by
  intro source found
  have hsource : tokenize source "a.f90" = .ok (found ++ [Token.ending "a.f90" 15]) := by
    decide +kernel
  have hquoted : tokenize "'c'" "a.f90"
      = .ok [⟨.string, "c", ⟨"a.f90", 0, 3⟩⟩, Token.ending "a.f90" 3] := by
    decide +kernel
  have hopen : tokenize " 'c" "a.f90" = .error (.error (.unrecognisedToken "'") ⟨1, "a.f90"⟩) := by
    decide +kernel
  refine ⟨hsource, ?_, ?_⟩
  · obtain ⟨found', heq, -, happend⟩ := tokenize_append_line hsource "'c'"
    obtain rfl := List.append_cancel_right heq
    rw [happend, hquoted]
    rfl
  · obtain ⟨_, -, -, happend⟩ := tokenize_append_line hsource " 'c"
    rw [happend, hopen]
    rfl

end FortranScope
