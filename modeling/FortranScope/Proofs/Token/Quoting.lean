import FortranScope.Proofs.Token.Lines

/-!
# Quoted text is read back

A text of any characters is written between two quotes of one kind, with the quotes of this kind in
it doubled.  What is written so is a single lexeme whatever comes after it, but for one more quote
of the kind (`best?_quote`), and the value of its token is the text again.  In a source the value of
a string is always the text that is written under its span in this way, between quotes of either
kind, so it can be written anew and has the same value.
-/

namespace FortranScope

open Lexeme

variable {file : String} {shape : Shape} {q : Char} {s text rest after : List Char}
  {offset : Nat} {value : String}

/-! ## Text between quotes is a lexeme -/

/-- The quote at the end is the one that closes, as no quote follows it and those before it are in
pairs. -/
theorem best?_quote (hq : q = '\x27' ∨ q = '\x22') (hrest : rest.head? ≠ some q)
    (s : List Char) :
  best? (Constant.quote q s ++ rest) = some (.quoted, rest)
  := by
  have hhead (c : Char) (hc : c ∈ rest.head?) : c ≠ q := by
    rintro rfl
    exact hrest hc
  have hlength : (Constant.doubleQuotes q s).length + 1
      = (Constant.doubleQuotes q s ++ [q]).length := by
    simp
  rw [Constant.quote, List.cons_append, List.cons_append, List.append_assoc,
    List.singleton_append, best?_eq, first?_quote hq, closingLength?_doubleQuotes hhead,
    Option.map_some, Option.map_some, List.append_cons, hlength, List.drop_left]

/-- The token of a quoted text has the text as its value. -/
theorem token?_quote (q : Char) (s : List Char) (span : Span) :
  Shape.quoted.token? (Constant.quote q s) span = some ⟨.string, String.ofList s, span⟩
  := by
  rw [Shape.token?, Shape.kind?, Option.map_some, Shape.value, Constant.quote, List.cons_append,
    unquoted, List.dropLast_concat, halveQuotes_doubleQuotes]

/-- A quoted text is read as a single token, unless one more such quote follows. -/
theorem reads_quote (hq : q = '\x27' ∨ q = '\x22') (hafter : after.head? ≠ some q)
    (file : String) (offset : Nat) (s : List Char) :
  Reads file after offset (Constant.quote q s)
    [⟨.string, String.ofList s, ⟨file, offset, offset + byteLength (Constant.quote q s)⟩⟩]
  := by
  have hreads := Reads.token (List.cons_ne_nil _ _) (best?_quote hq hafter s)
    (token?_quote q s ⟨file, offset, offset + byteLength (Constant.quote q s)⟩)
    (.nil (offset + byteLength (Constant.quote q s)))
  rw [List.append_nil] at hreads
  apply hreads

/-! ## Literals before other text -/

/-- Before `rest`, the whole of `text` is read as one token of the kind and the value.  What follows
it in the source is read as it is by itself, in its place. -/
structure Leads (text rest : String) (kind : TokenKind) (value : String) : Prop where
  reads : ∀ file, Reads file rest.toList 0 text.toList
    [⟨kind, value, ⟨file, 0, text.utf8ByteSize⟩⟩]
  tokenize_append : ∀ file, tokenize (text ++ rest) file = match tokenize rest file with
    | .ok tokens =>
      .ok (⟨kind, value, ⟨file, 0, text.utf8ByteSize⟩⟩
        :: tokens.map (Token.shift text.utf8ByteSize))
    | .error d => .error (d.shift text.utf8ByteSize)

/-- As a source of its own, the text is one string with the value. -/
def IsLiteral (text value : String) : Prop :=
  ∀ file, tokenize text file = .ok [⟨.string, value, ⟨file, 0, text.utf8ByteSize⟩⟩,
    Token.ending file text.utf8ByteSize]

/-- A text that is read as a single token leads to it, in front of the rest. -/
theorem leads_of_reads {text rest : String} {kind : TokenKind}
    (h : ∀ file, Reads file rest.toList 0 text.toList
      [⟨kind, value, ⟨file, 0, text.utf8ByteSize⟩⟩]) :
  Leads text rest kind value
  where
  reads := h
  tokenize_append file := by
    rw [tokenize, String.toList_append, (h file).tokensFrom_append, tokensFrom_add,
      byteLength_toList, ← tokenize]
    cases tokenize rest file <;> rfl

/-- A quoted text leads to a character literal with this text, before anything but one more such
quote. -/
theorem leads_quote {rest : String} (hq : q = '\x27' ∨ q = '\x22')
    (hrest : rest.toList.head? ≠ some q) (value : String) :
  Leads (String.ofList (Constant.quote q value.toList)) rest .string value
  := by
  apply leads_of_reads
  intro file
  have hreads := reads_quote hq hrest file 0 value.toList
  rw [String.ofList_toList, Nat.zero_add] at hreads
  rw [← byteLength_toList, String.toList_ofList]
  apply hreads

/-- What leads to a character literal is one. -/
theorem Leads.isLiteral {text : String} (h : Leads text "" .string value) :
  IsLiteral text value
  := by
  intro file
  have hempty : tokenize "" file = .ok [Token.ending file 0] := by
    apply tokensFrom_nil
  have htext := h.tokenize_append file
  rw [hempty, String.append_empty] at htext
  rw [htext]
  simp [Token.shift, Span.shift, Token.ending]

/-- Any text in quotes is a literal of it. -/
theorem isLiteral_quote (hq : q = '\x27' ∨ q = '\x22') (value : String) :
  IsLiteral (String.ofList (Constant.quote q value.toList)) value
  := by
  have hend : "".toList.head? ≠ some q := by simp
  apply (leads_quote hq hend value).isLiteral

/-! ## Strings in a source -/

/-- Only quoted text spells a string. -/
theorem exists_quote_of_spells (h : shape.Spells text .string value) :
  ∃ q, (q = '\x27' ∨ q = '\x22') ∧ text = Constant.quote q value.toList
  := by
  cases shape with
  | skipped => cases h
  | integer | real | word => cases h.1
  | dotted =>
    have hkind := h.1
    unfold dottedKind at hkind
    split at hkind <;> cases hkind
  | quoted => exact h.2
  | symbol symbol =>
    have hmem := h.2.2
    simp [symbols] at hmem

/-- A character literal of a source stands there as its value in quotes. -/
theorem InPlace.exists_quote {source : List Char} {token : Token}
    (h : InPlace file source offset token) (hkind : token.kind = .string) :
  ∃ q after, (q = '\x27' ∨ q = '\x22')
    ∧ Stands source offset token.span.start token.span.stop
      (Constant.quote q token.value.toList) after
  := by
  obtain ⟨shape, text, after, hstands, -, -, -, hspells⟩ := h.spelled
  rw [hkind] at hspells
  obtain ⟨q, hq, rfl⟩ := exists_quote_of_spells hspells
  exact ⟨q, after, hq, hstands⟩

/-- Any text at all is read back from between quotes of either kind, as a string that spans just
what was written, unless another quote of the kind comes next.  A string of a source is written so
under its span, and its value can be written and read again. -/
theorem tokenize_quoted_text :
  (∀ (value rest : String) (kind : Int), rest.toList.head? ≠ some '\x27' →
    Leads (Constant.character value kind).text rest .string value)
  ∧ (∀ value rest : String, rest.toList.head? ≠ some '\x22' →
    Leads (String.ofList (Constant.quote '\x22' value.toList)) rest .string value)
  ∧ ∀ source file tokens, tokenize source file = .ok tokens →
    ∀ token ∈ tokens, token.kind = .string →
      (∃ q after, (q = '\x27' ∨ q = '\x22')
        ∧ Stands source.toList 0 token.span.start token.span.stop
          (Constant.quote q token.value.toList) after)
      ∧ (∀ kind, IsLiteral (Constant.character token.value kind).text token.value)
      ∧ IsLiteral (String.ofList (Constant.quote '\x22' token.value.toList)) token.value
  := by
  refine ⟨?_, ?_, ?_⟩
  · intro value rest kind hrest
    apply leads_quote (.inl rfl) hrest
  · intro value rest hrest
    apply leads_quote (.inr rfl) hrest
  · intro source file tokens htokens token htoken hkind
    obtain ⟨found, rfl, hreads⟩ := exists_reads_of_tokenize htokens
    have hfound : token ∈ found := by
      rcases List.mem_append.mp htoken with hfound | hend
      · exact hfound
      · rw [List.mem_singleton.mp hend] at hkind
        contradiction
    refine ⟨(hreads.inPlace token hfound).exists_quote hkind, ?_, ?_⟩
    · intro kind
      apply isLiteral_quote (.inl rfl)
    · apply isLiteral_quote (.inr rfl)

/-- Runs of quotes at the start, in the middle and at the end of a text, before a quote of the other
kind that opens a text which is never closed; and a string of a source that is written with the
other quotes. -/
theorem tokenize_quoted_text_runs :
  let source := "x//\"a\"\"'b\""
  let tokens : List Token := [⟨.identifier, "x", ⟨"a.f90", 0, 1⟩⟩, ⟨.concat, "//", ⟨"a.f90", 1, 3⟩⟩,
    ⟨.string, "a\"'b", ⟨"a.f90", 3, 10⟩⟩, Token.ending "a.f90" 10]
  "\"!".toList.head? ≠ some '\x27' ∧ "'".toList.head? ≠ some '\x22'
    ∧ (Constant.character "''it's'" 1).text = "'''''it''s'''"
    ∧ Leads "'''''it''s'''" "\"!" .string "''it's'"
    ∧ Leads "\"\"\"\n\"" "'" .string "\"\n"
    ∧ tokenize source "a.f90" = .ok tokens
    ∧ IsLiteral "'a\"''b'" "a\"'b" ∧ IsLiteral "\"a\"\"'b\"" "a\"'b"
  := by
  intro source tokens
  obtain ⟨happostrophes, hquotes, hsource⟩ := tokenize_quoted_text
  have hsingle : "\"!".toList.head? ≠ some '\x27' := by decide
  have hdouble : "'".toList.head? ≠ some '\x22' := by decide
  have htext : (Constant.character "''it's'" 1).text = "'''''it''s'''" := by decide +kernel
  have htokens : tokenize source "a.f90" = .ok tokens := by decide +kernel
  have hleads := happostrophes "''it's'" "\"!" 1 hsingle
  rw [htext] at hleads
  obtain ⟨-, hliteral, hliteral'⟩ := hsource source "a.f90" tokens htokens
    ⟨.string, "a\"'b", ⟨"a.f90", 3, 10⟩⟩ (by decide) rfl
  refine ⟨hsingle, hdouble, htext, hleads, ?_, htokens, ?_, ?_⟩
  · apply hquotes "\"\n" "'" hdouble
  · apply hliteral 1
  · apply hliteral'

end FortranScope
