import FortranScope.Proofs.Token.Spelling
import FortranScope.Token.Sequence

/-!
# The partition of a source

A source is read from the left, one lexeme after another (`Reads`).  If this comes to the end of
the source, then the spans of the tokens follow one another in it and what stands between them are
gaps (`Partition`).  If it does not, then no pattern matches where it stops, and what comes before
this place is a source of its own with just the tokens read so far.
-/

namespace FortranScope

open Lexeme

/-! ## Bytes -/

/-- The bytes of a text are those of its encoding. -/
theorem byteLength_eq_size_utf8Encode (s : List Char) :
  byteLength s = s.utf8Encode.size
  := by
  induction s with
  | nil => rfl
  | cons c s ih => simp [List.utf8Encode, ih]

/-- The bytes of the characters of a string are those of the string. -/
theorem byteLength_toList (s : String) :
  byteLength s.toList = s.utf8ByteSize
  := by
  rw [byteLength_eq_size_utf8Encode, String.utf8Encode_toList]
  rfl

/-- A text that is not empty takes a byte at least. -/
theorem byteLength_pos {s : List Char} (h : s ≠ []) :
  0 < byteLength s
  := by
  cases s with
  | nil => cases h rfl
  | cons c s =>
    have hc := c.utf8Size_pos
    rw [byteLength_cons]
    omega

/-- Only the empty text takes no byte. -/
theorem eq_nil_of_byteLength_eq_zero {s : List Char} (h : byteLength s = 0) :
  s = []
  := by
  by_contra hs
  exact absurd h (byteLength_pos hs).ne'

/-- In a source that begins at the offset, `text` stands from the byte `start` up to `stop`, and
`after` follows it. -/
def Stands (source : List Char) (offset start stop : Nat) (text after : List Char) : Prop :=
  ∃ before, source = before ++ text ++ after ∧ offset + byteLength before = start
    ∧ start + byteLength text = stop

/-- A word stands at the same place after more text in front. -/
theorem Stands.append {text rest word after : List Char} {offset start stop : Nat}
    (h : Stands rest (offset + byteLength text) start stop word after) :
  Stands (text ++ rest) offset start stop word after
  := by
  obtain ⟨before, rfl, hstart, hstop⟩ := h
  use text ++ before
  refine ⟨?_, ?_, hstop⟩
  · rw [List.append_assoc, List.append_assoc, List.append_assoc]
  · rw [byteLength_append]
    omega

/-- What stands at the offset is what the source begins with. -/
theorem Stands.of_start_eq {source text after : List Char} {offset stop : Nat}
    (h : Stands source offset offset stop text after) :
  source = text ++ after ∧ offset + byteLength text = stop
  := by
  obtain ⟨before, rfl, hstart, hstop⟩ := h
  have hbefore : before = [] := by
    apply eq_nil_of_byteLength_eq_zero
    omega
  rw [hbefore, List.nil_append]
  exact ⟨rfl, hstop⟩

/-! ## Reading -/

/-- From the offset on, the text is read as lexemes when `after` follows it, and the tokens that
they spell are the ones given. -/
inductive Reads (file : String) (after : List Char) :
    Nat → List Char → List Token → Prop where
  | nil (offset : Nat) : Reads file after offset [] []
  | skip {offset : Nat} {text rest : List Char} {tokens : List Token} (hne : text ≠ [])
    (hbest : best? (text ++ (rest ++ after)) = some (.skipped, rest ++ after))
    (h : Reads file after (offset + byteLength text) rest tokens) :
    Reads file after offset (text ++ rest) tokens
  | token {offset : Nat} {text rest : List Char} {tokens : List Token} {shape : Shape}
    {token : Token} (hne : text ≠ [])
    (hbest : best? (text ++ (rest ++ after)) = some (shape, rest ++ after))
    (htoken : shape.token? text ⟨file, offset, offset + byteLength text⟩ = some token)
    (h : Reads file after (offset + byteLength text) rest tokens) :
    Reads file after offset (text ++ rest) (token :: tokens)

variable {file : String} {offset : Nat} {shape : Shape} {c : Char} {s text rest after : List Char}
  {token : Token} {tokens : List Token}

/-- Where the text ends there is only the end marker. -/
theorem tokensFrom_nil (file : String) (offset : Nat) :
  tokensFrom file offset [] = .ok [Token.ending file offset]
  := by
  rw [tokensFrom]

/-- A character that begins no lexeme is reported where it stands. -/
theorem tokensFrom_of_best?_eq_none (h : best? (c :: s) = none) :
  tokensFrom file offset (c :: s)
    = .error (.error (.unrecognisedToken (String.singleton c)) ⟨offset, file⟩)
  := by
  rw [tokensFrom, first?_eq_none_of_best? h]

/-- A lexeme is read before the rest of the source. -/
theorem tokensFrom_of_best? (hne : text ≠ []) (h : best? (text ++ rest) = some (shape, rest)) :
  tokensFrom file offset (text ++ rest)
    = (tokensFrom file (offset + byteLength text) rest).map
        ((shape.token? text ⟨file, offset, offset + byteLength text⟩).toList ++ ·)
  := by
  obtain ⟨c, s, rfl⟩ := List.exists_cons_of_ne_nil hne
  rw [List.cons_append] at h ⊢
  obtain ⟨n, hfirst, hdrop⟩ := exists_first?_of_best? h
  have htake : (s ++ rest).take n = s := by
    have hwhole := List.take_append_drop n (s ++ rest)
    rw [hdrop] at hwhole
    apply List.append_cancel_right hwhole
  rw [tokensFrom, hfirst]
  simp only [htake, hdrop]
  cases tokensFrom file (offset + byteLength (c :: s)) rest with
  | error d => rfl
  | ok ts => rfl

/-- The tokens of a source are those of the text that is read and then those of the rest. -/
theorem Reads.tokensFrom_append (h : Reads file after offset s tokens) :
  tokensFrom file offset (s ++ after)
    = (tokensFrom file (offset + byteLength s) after).map (tokens ++ ·)
  := by
  induction h with
  | nil offset =>
    rw [List.nil_append, byteLength_nil, Nat.add_zero]
    cases tokensFrom file offset after <;> rfl
  | skip hne hbest _ ih =>
    rw [List.append_assoc, tokensFrom_of_best? hne hbest, ih, byteLength_append, Nat.add_assoc]
    cases tokensFrom file _ after <;> rfl
  | token hne hbest htoken _ ih =>
    rw [List.append_assoc, tokensFrom_of_best? hne hbest, ih, byteLength_append, Nat.add_assoc,
      htoken]
    cases tokensFrom file _ after <;> rfl

/-- What is read is read in the same way when nothing follows it. -/
theorem Reads.alone (h : Reads file after offset s tokens) :
  Reads file [] offset s tokens
  := by
  induction h with
  | nil offset => exact .nil offset
  | skip hne hbest _ ih =>
    apply Reads.skip hne _ ih
    rw [List.append_nil]
    rw [← List.append_assoc] at hbest
    apply best?_of_append hbest
  | token hne hbest htoken _ ih =>
    apply Reads.token hne _ htoken ih
    rw [List.append_nil]
    rw [← List.append_assoc] at hbest
    apply best?_of_append hbest

/-- A property of texts holds of all of them if it holds where nothing is left and where no pattern
matches, and if it holds of a lexeme and what follows it whenever it holds of the latter. -/
theorem lexeme_induction {P : List Char → Prop} (hnil : P [])
    (hstuck : ∀ c s, best? (c :: s) = none → P (c :: s))
    (hlexeme : ∀ shape text rest, text ≠ [] → best? (text ++ rest) = some (shape, rest) →
      P rest → P (text ++ rest))
    (s : List Char) :
  P s
  := by
  induction hn : s.length using Nat.strongRecOn generalizing s with
  | ind n ih =>
    cases s with
    | nil => exact hnil
    | cons c s =>
      cases hbest : best? (c :: s) with
      | none => apply hstuck c s hbest
      | some found =>
        obtain ⟨shape, rest⟩ := found
        obtain ⟨text, hne, hwhole⟩ := exists_lexeme_of_best? hbest
        have hlt : rest.length < n := by
          have hpos := List.length_pos_iff.mpr hne
          rw [← hn, hwhole, List.length_append]
          omega
        rw [hwhole] at hbest ⊢
        apply hlexeme shape text rest hne hbest (ih _ hlt rest rfl)

/-- Reading goes on until nothing is left or no pattern matches. -/
theorem exists_reads (file : String) (offset : Nat) (s : List Char) :
  ∃ text after tokens, s = text ++ after ∧ Reads file after offset text tokens
    ∧ (after = [] ∨ best? after = none)
  := by
  induction s using lexeme_induction generalizing offset with
  | hnil => exact ⟨[], [], [], rfl, .nil offset, .inl rfl⟩
  | hstuck c s hbest => exact ⟨[], c :: s, [], rfl, .nil offset, .inr hbest⟩
  | hlexeme shape first rest hne hbest ih =>
    obtain ⟨text, after, tokens, rfl, hreads, hstop⟩ := ih (offset + byteLength first)
    rw [← List.append_assoc]
    cases htoken : shape.token? first ⟨file, offset, offset + byteLength first⟩ with
    | none =>
      obtain rfl : shape = .skipped := by
        cases shape <;> first | rfl | cases htoken
      exact ⟨_, after, tokens, rfl, .skip hne hbest hreads, hstop⟩
    | some token =>
      exact ⟨_, after, token :: tokens, rfl, .token hne hbest htoken hreads, hstop⟩

/-- A source that has tokens is read up to its end. -/
theorem exists_reads_of_tokenize {source : String} (h : tokenize source file = .ok tokens) :
  ∃ found, tokens = found ++ [Token.ending file source.utf8ByteSize]
    ∧ Reads file [] 0 source.toList found
  := by
  obtain ⟨text, after, found, hsource, hreads, hstop⟩ := exists_reads file 0 source.toList
  have htokens := hreads.tokensFrom_append
  rw [← hsource, ← tokenize, h] at htokens
  cases after with
  | nil =>
    rw [List.append_nil] at hsource
    rw [tokensFrom_nil, Nat.zero_add, ← hsource, byteLength_toList] at htokens
    rw [hsource]
    exact ⟨found, Except.ok.inj htokens, hreads⟩
  | cons c after =>
    have hnone : best? (c :: after) = none := by simpa using hstop
    rw [tokensFrom_of_best?_eq_none hnone] at htokens
    cases htokens

/-- Where a text is read on, some pattern matches. -/
theorem Reads.best?_ne_none (h : Reads file after offset (c :: s) tokens) :
  best? (c :: s ++ after) ≠ none
  := by
  generalize htext : c :: s = text at h
  cases h with
  | nil => cases htext
  | skip _ hbest _ =>
    rw [List.append_assoc, hbest]
    apply Option.some_ne_none
  | token _ hbest _ _ =>
    rw [List.append_assoc, hbest]
    apply Option.some_ne_none

/-! ## Tokens in their places -/

/-- The span of a token is where its lexeme stands. -/
theorem span_of_token? {span : Span} (h : shape.token? text span = some token) :
  token.span = span
  := by
  obtain ⟨kind, -, rfl⟩ := Option.map_eq_some_iff.mp h
  rfl

/-- The token of a lexeme is spelled by it. -/
theorem spells_of_token? {span : Span} (hne : text ≠ []) (hbest : best? text = some (shape, []))
    (htoken : shape.token? text span = some token) :
  shape.Spells text token.kind token.value
  := by
  obtain ⟨c, s, rfl⟩ := List.exists_cons_of_ne_nil hne
  obtain ⟨kind, hkind, rfl⟩ := Option.map_eq_some_iff.mp htoken
  apply spells_of_best? hbest hkind

/-- No text spells an end marker. -/
theorem kind_ne_eof_of_spells {kind : TokenKind} {value : String}
    (h : shape.Spells text kind value) :
  kind ≠ .eof
  := by
  rintro rfl
  cases shape with
  | skipped => cases h
  | integer | real | word | quoted => cases h.1
  | dotted =>
    have hkind := h.1
    unfold dottedKind at hkind
    split at hkind <;> cases hkind
  | symbol symbol =>
    have hmem := h.2.2
    simp [symbols] at hmem

/-- The token is spelled by the characters under its span, in a source that begins at the offset.
They are the lexeme that the source goes on with there, and a lexeme by themselves. -/
structure InPlace (file : String) (source : List Char) (offset : Nat) (token : Token) : Prop where
  file_eq : token.span.file = file
  nonempty : token.span.start < token.span.stop
  bounded : offset ≤ token.span.start ∧ token.span.stop ≤ offset + byteLength source
  kind_ne_eof : token.kind ≠ .eof
  spelled : ∃ shape text after, Stands source offset token.span.start token.span.stop text after
    ∧ best? (text ++ after) = some (shape, after) ∧ best? text = some (shape, [])
    ∧ shape.token? text token.span = some token ∧ shape.Spells text token.kind token.value

/-- A token is in its place after more text in front. -/
theorem InPlace.append (h : InPlace file rest (offset + byteLength text) token) :
  InPlace file (text ++ rest) offset token
  := by
  obtain ⟨hfile, hnonempty, ⟨hstart, hstop⟩, hkind, shape, word, after, hstands, hword⟩ := h
  refine ⟨hfile, hnonempty, ⟨?_, ?_⟩, hkind, shape, word, after, hstands.append, hword⟩
  · omega
  · rw [byteLength_append]
    omega

/-- The token of the first lexeme is in its place. -/
theorem inPlace_of_best? (hne : text ≠ []) (hbest : best? (text ++ rest) = some (shape, rest))
    (htoken : shape.token? text ⟨file, offset, offset + byteLength text⟩ = some token) :
  InPlace file (text ++ rest) offset token
  := by
  have hspan := span_of_token? htoken
  have halone : best? text = some (shape, []) := best?_of_append hbest
  have hspells := spells_of_token? hne halone htoken
  have hpos := byteLength_pos hne
  refine ⟨?_, ?_, ⟨?_, ?_⟩, kind_ne_eof_of_spells hspells, shape, text, rest, ⟨[], ?_⟩, hbest,
    halone, ?_, hspells⟩
  all_goals rw [hspan]
  · dsimp only
    omega
  · rw [byteLength_append]
    dsimp only
    omega
  · exact ⟨rfl, rfl, rfl⟩
  · exact htoken

/-- Every token that is read is in its place. -/
theorem Reads.inPlace (h : Reads file [] offset s tokens) :
  ∀ token ∈ tokens, InPlace file s offset token
  := by
  induction h with
  | nil offset =>
    intro token htoken
    cases htoken
  | skip _ _ _ ih =>
    intro token htoken
    apply (ih token htoken).append
  | token hne hbest htoken _ ih =>
    rw [List.append_nil] at hbest
    rw [List.forall_mem_cons]
    constructor
    · apply inPlace_of_best? hne hbest htoken
    · intro token htoken
      apply (ih token htoken).append

/-- Tokens that are read one after the other stand one after the other. -/
theorem Reads.ordered (h : Reads file [] offset s tokens) :
  tokens.Pairwise fun token next => token.span.stop ≤ next.span.start
  := by
  induction h with
  | nil offset => apply List.Pairwise.nil
  | skip _ _ _ ih => exact ih
  | token _ _ htoken hrest ih =>
    apply List.Pairwise.cons _ ih
    intro next hnext
    rw [span_of_token? htoken]
    apply (hrest.inPlace next hnext).bounded.1

/-! ## Gaps between tokens -/

/-- Where the last one of the tokens ends, or the offset if there are none. -/
def endOf (offset : Nat) (tokens : List Token) : Nat :=
  (tokens.getLast?.map (·.span.stop)).getD offset

@[simp]
theorem endOf_nil (offset : Nat) : endOf offset [] = offset := rfl

@[simp]
theorem endOf_cons (offset : Nat) (token : Token) (tokens : List Token) :
  endOf offset (token :: tokens) = endOf token.span.stop tokens
  := by
  rw [endOf, endOf, List.getLast?_cons]
  cases tokens.getLast? <;> rfl

/-- Between the tokens, before the first one and after the last one there are gaps, the end of the
source being marked by a token of its own. -/
def Spaced (file : String) (source : List Char) (offset : Nat) (tokens : List Token) : Prop :=
  ∀ before next after,
    tokens ++ [Token.ending file (offset + byteLength source)] = before ++ next :: after →
    ∃ gap rest, Stands source offset (endOf offset before) next.span.start gap rest ∧ Gap rest gap

/-- Between tokens that are read there is nothing but blanks and comments. -/
theorem Reads.spaced (h : Reads file [] offset s tokens) :
  Spaced file s offset tokens
  := by
  induction h with
  | nil offset =>
    intro before next after heq
    cases before with
    | nil =>
      cases heq
      exact ⟨[], [], ⟨[], rfl, rfl, rfl⟩, .nil⟩
    | cons token before => simp at heq
  | @skip offset text rest tokens hne hbest _ ih =>
    intro before next after heq
    rw [byteLength_append, ← Nat.add_assoc] at heq
    -- what is skipped goes to the front of the gap before the next token
    obtain ⟨gap, later, hstands, hgap⟩ := ih before next after heq
    cases before with
    | nil =>
      obtain ⟨rfl, hstop⟩ := hstands.of_start_eq
      rw [List.append_nil] at hbest
      refine ⟨text ++ gap, later, ⟨[], ?_, rfl, ?_⟩, hgap.skipped hne hbest⟩
      · rw [List.nil_append, List.append_assoc]
      · rw [endOf_nil, byteLength_append, ← Nat.add_assoc, hstop]
    | cons token before => exact ⟨gap, later, hstands.append, hgap⟩
  | @token offset text rest tokens shape token hne hbest htoken _ ih =>
    intro before next after heq
    cases before with
    | nil =>
      cases heq
      rw [span_of_token? htoken]
      exact ⟨[], text ++ rest, ⟨[], rfl, rfl, rfl⟩, .nil⟩
    | cons first before =>
      rw [List.cons_append, List.cons_append, List.cons.injEq, byteLength_append,
        ← Nat.add_assoc] at heq
      obtain ⟨rfl, heq⟩ := heq
      obtain ⟨gap, later, hstands, hgap⟩ := ih before next after heq
      rw [endOf_cons, span_of_token? htoken]
      exact ⟨gap, later, hstands.append, hgap⟩

/-! ## The tokens of a source -/

/-- The tokens and the gaps between them make up the source. -/
structure Partition (file : String) (source : List Char) (tokens : List Token) : Prop where
  inPlace : ∀ token ∈ tokens, InPlace file source 0 token
  ordered : tokens.Pairwise fun token next => token.span.stop ≤ next.span.start
  spaced : Spaced file source 0 tokens

/-- The diagnostic names the character of the source where no pattern matches.  What comes before
it is read as tokens, and these are the tokens that it has as a source of its own. -/
def Stuck (file : String) (source : List Char) (d : Diagnostic) : Prop :=
  ∃ before c after tokens, source = before ++ c :: after
    ∧ d = .error (.unrecognisedToken (String.singleton c)) ⟨byteLength before, file⟩
    ∧ (∀ entry ∈ patterns, entry.2.rests (c :: after) = [])
    ∧ Reads file (c :: after) 0 before tokens
    ∧ tokenize (String.ofList before) file
      = .ok (tokens ++ [Token.ending file (byteLength before)])

/-- A source is cut into tokens and gaps up to its end, or up to the first place where no lexeme
begins. -/
theorem tokenize_partitions (source file : String) :
  match tokenize source file with
  | .ok tokens => ∃ found, tokens = found ++ [Token.ending file source.utf8ByteSize]
      ∧ Partition file source.toList found
  | .error d => Stuck file source.toList d
  := by
  obtain ⟨before, after, found, hsource, hreads, hstop⟩ := exists_reads file 0 source.toList
  have halone := hreads.alone
  have hbefore := halone.tokensFrom_append
  rw [List.append_nil, tokensFrom_nil, Nat.zero_add] at hbefore
  have htokens := hreads.tokensFrom_append
  rw [← hsource, Nat.zero_add] at htokens
  cases after with
  | nil =>
    rw [List.append_nil] at hsource
    subst hsource
    rw [tokenize, hbefore]
    refine ⟨found, ?_, halone.inPlace, halone.ordered, halone.spaced⟩
    rw [byteLength_toList]
  | cons c after =>
    have hnone : best? (c :: after) = none := by simpa using hstop
    rw [tokensFrom_of_best?_eq_none hnone] at htokens
    rw [tokenize, htokens]
    refine ⟨before, c, after, found, hsource, rfl, rests_eq_nil_of_best? hnone, hreads, ?_⟩
    rw [tokenize, String.toList_ofList, hbefore]
    rfl

end FortranScope
