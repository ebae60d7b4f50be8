import FortranScope.Phrase.Reading
import FortranScope.Proofs.Token.Legibility

/-!
# Letter case in a source

Outside quoted text the case of letters makes no difference.  No class of characters in the table
of patterns tells a capital letter from a small one, so a text with its letters made small is cut
into lexemes at the same places (`best?_foldChars`); and all values but those of quoted text have
their letters made small.  The places where sources differ are bytes, and `map_foldByte_bytes` says
that making letters small is the same for the characters of a text and for its bytes.
-/

namespace FortranScope

/-! ## Bytes -/

/-- The bytes that encode `s`. -/
def bytes (s : List Char) : List UInt8 := s.flatMap String.utf8EncodeChar

/-- The byte `b`, made small if it is a capital letter. -/
def foldByte (b : UInt8) : UInt8 := if 65 ≤ b ∧ b ≤ 90 then b + 32 else b

/-- The bytes of the characters of a string are those of the string. -/
theorem bytes_toList (s : String) :
  bytes s.toList = s.toUTF8.data.toList
  := by
  rw [String.toUTF8_eq_toByteArray, ← String.utf8Encode_toList, List.utf8Encode,
    List.toList_data_toByteArray, bytes]

theorem bytes_append (s t : List Char) :
  bytes (s ++ t) = bytes s ++ bytes t
  := List.flatMap_append

/-- There are as many bytes as the characters take. -/
theorem length_bytes (s : List Char) :
  (bytes s).length = byteLength s
  := by
  induction s with
  | nil => rfl
  | cons c s ih =>
    rw [bytes, List.flatMap_cons, List.length_append, String.length_utf8EncodeChar, ← bytes, ih,
      byteLength_cons]

/-- A text is determined by its bytes. -/
theorem eq_of_bytes_eq {s t : List Char} (h : bytes s = bytes t) :
  s = t
  := by
  have hencode : s.utf8Encode = t.utf8Encode := congrArg List.toByteArray h
  rw [← String.toByteArray_ofList, ← String.toByteArray_ofList, String.toByteArray_inj] at hencode
  rw [← String.toList_ofList (l := s), hencode, String.toList_ofList]

/-- Only bytes of ASCII are folded. -/
theorem foldByte_eq_self {b : UInt8} (h : 128 ≤ b.toNat) :
  foldByte b = b
  := by
  apply if_neg
  rintro ⟨-, hle⟩
  have hnat : b.toNat ≤ 90 := UInt8.le_iff_toNat_le.mp hle
  omega

/-- A character that is not in ASCII is encoded by bytes that are not in ASCII. -/
theorem le_toNat_of_mem_utf8EncodeChar {c : Char} (hc : 128 ≤ c.toNat) {b : UInt8}
    (h : b ∈ String.utf8EncodeChar c) :
  128 ≤ b.toNat
  := by
  have hascii : ¬ c.val.toNat ≤ 127 := Nat.not_le_of_lt hc
  rw [String.utf8EncodeChar, if_neg hascii] at h
  split at h
  · simp only [List.mem_cons, List.not_mem_nil, or_false] at h
    rcases h with rfl | rfl
    all_goals
      rw [UInt8.toNat_ofNat']
      omega
  split at h
  · simp only [List.mem_cons, List.not_mem_nil, or_false] at h
    rcases h with rfl | rfl | rfl
    all_goals
      rw [UInt8.toNat_ofNat']
      omega
  · simp only [List.mem_cons, List.not_mem_nil, or_false] at h
    rcases h with rfl | rfl | rfl | rfl
    all_goals
      rw [UInt8.toNat_ofNat']
      omega

/-- Folding the bytes of a character gives the bytes of the folded character. -/
theorem map_foldByte_utf8EncodeChar (c : Char) :
  (String.utf8EncodeChar c).map foldByte = String.utf8EncodeChar c.toLower
  := by
  by_cases hascii : c.toNat < 128
  · apply Lexeme.of_ascii
      (P := fun c => (String.utf8EncodeChar c).map foldByte = String.utf8EncodeChar c.toLower)
      (by decide +kernel) hascii
  · have hc := Nat.le_of_not_lt hascii
    rw [Lexeme.toLower_eq_self hc]
    rw [List.map_congr_left fun b hb => foldByte_eq_self (le_toNat_of_mem_utf8EncodeChar hc hb),
      List.map_id']

/-- To make letters small is the same for the bytes of a text and for its characters. -/
theorem map_foldByte_bytes (s : List Char) :
  (bytes s).map foldByte = bytes (Text.foldChars s)
  := by
  rw [bytes, List.map_flatMap, bytes, Text.foldChars, List.flatMap_map]
  apply List.flatMap_congr
  intro c _
  apply map_foldByte_utf8EncodeChar

/-- Folding keeps the number of bytes. -/
theorem byteLength_foldChars (s : List Char) :
  byteLength (Text.foldChars s) = byteLength s
  := by
  rw [← length_bytes, ← map_foldByte_bytes, List.length_map, length_bytes]

/-! ## Patterns -/

/-- Letter case makes no difference to the classes of characters in the pattern. -/
def Pattern.Caseless : Pattern → Prop
  | nothing => True
  | one p => Lexeme.Caseless p
  | seq first second => first.Caseless ∧ second.Caseless
  | either first second => first.Caseless ∧ second.Caseless
  | many repeated => repeated.Caseless

/-- A pattern matches as much of a text with its letters made small. -/
theorem Pattern.rests_foldChars {a : Pattern} (ha : a.Caseless) (s : List Char) :
  a.rests (Text.foldChars s) = (a.rests s).map Text.foldChars
  := by
  induction a generalizing s with
  | nothing => rw [rests_nothing, rests_nothing, List.map_singleton]
  | one p =>
    cases s with
    | nil => rw [Text.foldChars_nil, rests_one_nil, List.map_nil]
    | cons c s =>
      rw [Text.foldChars_cons, rests_one_cons, rests_one_cons, ha c]
      split <;> rfl
  | seq a b iha ihb =>
    rw [rests_seq, rests_seq, iha ha.1, List.flatMap_map, List.map_flatMap]
    apply List.flatMap_congr
    intro t _
    apply ihb ha.2
  | either a b iha ihb => rw [rests_either, rests_either, iha ha.1, ihb ha.2, List.map_append]
  | many a ih =>
    induction hn : s.length using Nat.strongRecOn generalizing s with
    | ind n ihn =>
      rw [rests_many, rests_many, ih ha, List.flatMap_map, List.map_append, List.map_flatMap,
        List.map_singleton]
      congr 1
      apply List.flatMap_congr
      intro t _
      rw [Text.length_foldChars, Text.length_foldChars]
      split
      · next hlt => apply ihn t.length (hn ▸ hlt) t rfl
      · rfl

namespace Lexeme

/-- A literal text has no case if none of its characters has. -/
theorem caseless_literal {w : List Char} (h : ∀ c ∈ w, Caseless (· = c)) :
  (Pattern.literal w).Caseless
  := by
  induction w with
  | nil => trivial
  | cons c w ih =>
    obtain ⟨hc, hw⟩ := List.forall_mem_cons.mp h
    exact ⟨hc, ih hw⟩

theorem caseless_isBlank : Caseless Text.isBlank := caseless_of_ascii (by decide +kernel)

theorem caseless_isAlpha : Caseless Char.isAlpha := caseless_of_ascii (by decide +kernel)

theorem caseless_isWordChar : Caseless isWordChar := caseless_of_ascii (by decide +kernel)

/-- To be another character than one without case has no case either. -/
theorem Caseless.ne {c : Char} (h : Caseless (· = c)) :
  Caseless (· ≠ c)
  := by
  intro d
  have hd : decide (d.toLower = c) = decide (d = c) := h d
  simp only [ne_eq, decide_not, hd]

theorem caseless_exclamation : Caseless (· = '!') := caseless_of_isAlpha_eq_false rfl

theorem caseless_newline : Caseless (· = '\n') := caseless_of_isAlpha_eq_false rfl

theorem caseless_quote : Caseless (· = '\x27') := caseless_of_isAlpha_eq_false rfl

theorem caseless_doubleQuote : Caseless (· = '\x22') := caseless_of_isAlpha_eq_false rfl

/-- The patterns of numbers match in either case. -/
theorem caseless_of_mem_numbers {entry : Shape × Pattern} (h : entry ∈ numbers) :
  entry.2.Caseless
  := by
  simp only [numbers, List.mem_cons, List.not_mem_nil, or_false] at h
  rcases h with rfl | rfl | rfl
  all_goals
    simp [digits, fraction, exponent, kind, Pattern.run, Pattern.char, Pattern.optional,
      Pattern.Caseless, caseless_isDigit, caseless_isSign, caseless_isExponentLetter,
      caseless_isWordChar, caseless_point, caseless_underscore]

/-- No class of characters in the table tells capital letters from small ones. -/
theorem caseless_of_mem_patterns {entry : Shape × Pattern} (h : entry ∈ patterns) :
  entry.2.Caseless
  := by
  simp only [patterns, List.mem_append, List.mem_cons, List.not_mem_nil, or_false] at h
  rcases h with (((rfl | rfl) | hnumber) | (rfl | rfl | rfl | rfl)) | hsymbol
  · exact ⟨caseless_isBlank, caseless_isBlank⟩
  · exact ⟨caseless_exclamation, caseless_newline.ne⟩
  · apply caseless_of_mem_numbers hnumber
  · exact ⟨caseless_isAlpha, caseless_isWordChar⟩
  · exact ⟨caseless_point, ⟨caseless_isAlpha, caseless_isAlpha⟩, caseless_point⟩
  · exact ⟨caseless_quote, ⟨caseless_quote.ne, caseless_quote, caseless_quote⟩, caseless_quote⟩
  · exact ⟨caseless_doubleQuote,
      ⟨caseless_doubleQuote.ne, caseless_doubleQuote, caseless_doubleQuote⟩, caseless_doubleQuote⟩
  · obtain ⟨symbol, hmem, rfl⟩ := List.mem_map.mp hsymbol
    have hsign : ∀ symbol ∈ symbols, ∀ c ∈ symbol.1.toList, c.isAlpha = false := by
      simp [symbols]
    apply caseless_literal
    intro c hc
    apply caseless_of_isAlpha_eq_false (hsign symbol hmem c hc)

/-- Only the empty text is folded to the empty text. -/
theorem ne_nil_of_foldChars_eq {s s' : List Char} (h : Text.foldChars s' = Text.foldChars s)
    (hs : s ≠ []) :
  s' ≠ []
  := by
  rintro rfl
  apply hs (List.map_eq_nil_iff.mp h.symm)

/-- The lexeme that a text begins with is as long if the letters of the text are made small. -/
theorem best?_foldChars (s : List Char) :
  best? (Text.foldChars s) = (best? s).map fun found => (found.1, Text.foldChars found.2)
  := by
  apply findSome?_attempt_eq_map Text.foldChars
  intro entry hmem
  rw [Pattern.match?, Pattern.rests_foldChars (caseless_of_mem_patterns hmem), List.head?_map,
    Pattern.match?]

/-- A text that differs from another in case at most begins with a lexeme of as many characters. -/
theorem best?_of_foldChars_eq {shape : Shape} {text text' rest rest' : List Char}
    (hne : text ≠ []) (h : best? (text ++ rest) = some (shape, rest))
    (htext : Text.foldChars text' = Text.foldChars text)
    (hrest : Text.foldChars rest' = Text.foldChars rest) :
  best? (text' ++ rest') = some (shape, rest')
  := by
  have hfold := best?_foldChars (text' ++ rest')
  rw [Text.foldChars_append, htext, hrest, ← Text.foldChars_append, best?_foldChars, h,
    Option.map_some] at hfold
  obtain ⟨⟨_, r⟩, hbest, heq⟩ := Option.map_eq_some_iff.mp hfold.symm
  obtain ⟨rfl, hr⟩ := Prod.mk.inj heq
  obtain ⟨c, w, rfl⟩ := List.exists_cons_of_ne_nil (ne_nil_of_foldChars_eq htext hne)
  obtain ⟨first, hwhole⟩ : ∃ first, c :: w ++ rest' = first ++ r := by
    obtain ⟨first, -, hwhole⟩ := exists_lexeme_of_best? hbest
    use first, hwhole
  have hlength : rest'.length = r.length := by
    rw [← Text.length_foldChars, hrest, ← hr, Text.length_foldChars]
  rw [hbest, List.append_inj_right' hwhole hlength]

end Lexeme

open Lexeme

/-! ## Sources that differ in case -/

/-- The spellings of symbols have no letters. -/
theorem foldCase_of_mem_symbols {symbol : String × TokenKind} (h : symbol ∈ symbols) :
  Text.foldChars symbol.1.toList = symbol.1.toList
  := by
  have hall : ∀ symbol ∈ symbols, Text.foldChars symbol.1.toList = symbol.1.toList := by
    decide +kernel
  apply hall symbol h

/-- A lexeme that differs in case at most spells the same token, if it is the same where it spells
a quoted text. -/
theorem token?_of_foldChars_eq {shape : Shape} {text text' : List Char} {span : Span}
    (hbest : best? text = some (shape, [])) (hbest' : best? text' = some (shape, []))
    (hfold : Text.foldChars text' = Text.foldChars text) (hquoted : shape = .quoted → text' = text) :
  shape.token? text' span = shape.token? text span
  := by
  cases shape with
  | skipped => rfl
  | integer | real | word | dotted =>
    simp only [Shape.token?, Shape.kind?, Shape.value, hfold]
  | quoted => rw [hquoted rfl]
  | symbol kind =>
    have htext := foldCase_of_mem_symbols (mem_symbols_of_best? hbest)
    have htext' := foldCase_of_mem_symbols (mem_symbols_of_best? hbest')
    rw [String.toList_ofList] at htext htext'
    rw [← htext', hfold, htext]

/-- The bytes under the quoted tokens are the same in both texts, which begin at the offset. -/
def Kept (offset : Nat) (tokens : List Token) (s s' : List Char) : Prop :=
  ∀ t ∈ tokens, t.kind = .string → ∀ i, t.span.start ≤ offset + i → offset + i < t.span.stop →
    (bytes s')[i]? = (bytes s)[i]?

section

variable {file : String} {offset : Nat} {s s' text text' after after' : List Char}
  {tokens : List Token} {token : Token}

/-- What is kept in a text is kept in the rest of it. -/
theorem Kept.rest (h : Kept offset tokens (text ++ after) (text' ++ after'))
    (hlength : byteLength text' = byteLength text) :
  Kept (offset + byteLength text) tokens after after'
  := by
  intro t ht hkind i hstart hstop
  have hbytes := h t ht hkind (byteLength text + i) (by omega) (by omega)
  rw [bytes_append, bytes_append, List.getElem?_append_right, List.getElem?_append_right,
    length_bytes, length_bytes, hlength, Nat.add_sub_cancel_left] at hbytes
  · exact hbytes
  all_goals
    rw [length_bytes]
    omega

/-- A character literal is kept as it is. -/
theorem Kept.eq_of_mem (h : Kept offset tokens (text ++ after) (text' ++ after'))
    (hlength : byteLength text' = byteLength text) (hmem : token ∈ tokens)
    (hkind : token.kind = .string) (hspan : token.span = ⟨file, offset, offset + byteLength text⟩) :
  text' = text
  := by
  apply eq_of_bytes_eq
  apply List.ext_getElem?
  intro i
  by_cases hi : i < byteLength text
  · have hbytes := h token hmem hkind i (by rw [hspan]; apply Nat.le_add_right)
      (by rw [hspan]; dsimp only; omega)
    rwa [bytes_append, bytes_append, List.getElem?_append_left (by rwa [length_bytes, hlength]),
      List.getElem?_append_left (by rwa [length_bytes])] at hbytes
  · rw [List.getElem?_eq_none (by rw [length_bytes]; omega),
      List.getElem?_eq_none (by rw [length_bytes]; omega)]

/-- A text with the same folding can be cut at the same place. -/
theorem exists_append_of_foldChars_eq (h : Text.foldChars s' = Text.foldChars (text ++ after)) :
  ∃ text' after', s' = text' ++ after' ∧ Text.foldChars text' = Text.foldChars text
    ∧ Text.foldChars after' = Text.foldChars after
  := by
  rw [Text.foldChars_append] at h
  apply List.map_eq_append_iff.mp h

/-- Texts with the same folding have the same number of bytes. -/
theorem byteLength_of_foldChars_eq (h : Text.foldChars s' = Text.foldChars s) :
  byteLength s' = byteLength s
  := by
  rw [← byteLength_foldChars, h, byteLength_foldChars]

/-- A source that differs in case at most, and not under quoted tokens, is read as the same
tokens. -/
theorem Reads.of_foldChars_eq (h : Reads file [] offset s tokens)
    (hfold : Text.foldChars s' = Text.foldChars s) (hkept : Kept offset tokens s s') :
  Reads file [] offset s' tokens
  := by
  induction h generalizing s' with
  | nil offset =>
    obtain rfl := List.map_eq_nil_iff.mp hfold
    exact .nil offset
  | @skip offset text rest tokens hne hbest h ih =>
    obtain ⟨text', rest', rfl, htext, hrest⟩ := exists_append_of_foldChars_eq hfold
    have hlength := byteLength_of_foldChars_eq htext
    rw [List.append_nil] at hbest
    apply Reads.skip (ne_nil_of_foldChars_eq htext hne)
    · rw [List.append_nil]
      apply best?_of_foldChars_eq hne hbest htext hrest
    · rw [hlength]
      apply ih hrest (hkept.rest hlength)
  | @token offset text rest tokens shape token hne hbest htoken h ih =>
    obtain ⟨text', rest', rfl, htext, hrest⟩ := exists_append_of_foldChars_eq hfold
    have hlength := byteLength_of_foldChars_eq htext
    rw [List.append_nil] at hbest
    have hbest' := best?_of_foldChars_eq hne hbest htext hrest
    -- a character literal is kept as it is, and any other token is the same in either case
    have hquoted (hshape : shape = .quoted) : text' = text := by
      apply hkept.eq_of_mem hlength List.mem_cons_self _ (span_of_token? htoken)
      subst hshape
      cases htoken
      rfl
    apply Reads.token (ne_nil_of_foldChars_eq htext hne)
    · rw [List.append_nil]
      exact hbest'
    · rw [hlength, ← htoken]
      apply token?_of_foldChars_eq (best?_of_append hbest) (best?_of_append hbest') htext hquoted
    · rw [hlength]
      apply ih hrest
      intro t ht
      apply (hkept.rest hlength) t (List.mem_cons_of_mem _ ht)

end

/-- The sources differ at most in the case of ASCII letters, and they agree on the bytes under the
quoted tokens among those given. -/
structure Recased (tokens : List Token) (source other : String) : Prop where
  folded : other.toUTF8.data.toList.map foldByte = source.toUTF8.data.toList.map foldByte
  kept : ∀ t ∈ tokens, t.kind = .string → ∀ i, t.span.start ≤ i → i < t.span.stop →
    other.toUTF8.data.toList[i]? = source.toUTF8.data.toList[i]?

/-- Texts that differ in case only have the same folding. -/
theorem Recased.foldChars_eq {tokens : List Token} {source other : String}
    (h : Recased tokens source other) :
  Text.foldChars other.toList = Text.foldChars source.toList
  := by
  apply eq_of_bytes_eq
  rw [← map_foldByte_bytes, ← map_foldByte_bytes, bytes_toList, bytes_toList, h.folded]

/-- A source has the same tokens and spells the same phrase, or has the same error, in whatever
case its letters are written, but for those in quoted text. -/
theorem tokenize_of_recased {source other file : String} {tokens : List Token}
    (h : tokenize source file = .ok tokens) (hcase : Recased tokens source other) :
  tokenize other file = .ok tokens ∧ Phrase.ofSource other file = Phrase.ofSource source file
  := by
  obtain ⟨found, rfl, hreads⟩ := exists_reads_of_tokenize h
  have hfold := hcase.foldChars_eq
  have hkept : Kept 0 found source.toList other.toList := by
    intro t ht hkind i hstart hstop
    rw [Nat.zero_add] at hstart hstop
    rw [bytes_toList, bytes_toList]
    apply hcase.kept t (List.mem_append_left _ ht) hkind i hstart hstop
  have hother := (hreads.of_foldChars_eq hfold hkept).tokensFrom_append
  rw [List.append_nil, Nat.zero_add, byteLength_of_foldChars_eq hfold, byteLength_toList,
    tokensFrom_nil, ← tokenize] at hother
  refine ⟨hother, ?_⟩
  rw [Phrase.ofSource, Phrase.ofSource, h, hother]
  rfl

/-- `1E2_K>X.OR.Y=='aB'` in other letters has the same tokens. -/
theorem tokenize_of_recased_quoted :
  let source := "1E2_K>X.OR.Y=='aB'"
  let other := "1e2_k>x.oR.y=='aB'"
  let tokens : List Token := [⟨.real, "1e2_k", ⟨"a.f90", 0, 5⟩⟩, ⟨.greater, ">", ⟨"a.f90", 5, 6⟩⟩,
    ⟨.identifier, "x", ⟨"a.f90", 6, 7⟩⟩, ⟨.or, ".or.", ⟨"a.f90", 7, 11⟩⟩,
    ⟨.identifier, "y", ⟨"a.f90", 11, 12⟩⟩, ⟨.equals, "==", ⟨"a.f90", 12, 14⟩⟩,
    ⟨.string, "aB", ⟨"a.f90", 14, 18⟩⟩, Token.ending "a.f90" 18]
  tokenize source "a.f90" = .ok tokens ∧ Recased tokens source other
    ∧ tokenize other "a.f90" = .ok tokens
    ∧ Phrase.ofSource other "a.f90" = Phrase.ofSource source "a.f90"
  := by
  intro source other tokens
  have hsource : tokenize source "a.f90" = .ok tokens := by decide +kernel
  have hcase : Recased tokens source other := by
    constructor
    · decide +kernel
    · intro t ht hkind i hstart hstop
      have hquoted : ∀ t ∈ tokens, t.kind = .string → t.span.start = 14 ∧ t.span.stop = 18 := by
        decide +kernel
      have hbytes : ∀ i < 18, 14 ≤ i →
          other.toUTF8.data.toList[i]? = source.toUTF8.data.toList[i]? := by
        decide +kernel
      obtain ⟨hfirst, hlast⟩ := hquoted t ht hkind
      apply hbytes i (hlast ▸ hstop) (hfirst ▸ hstart)
  exact ⟨hsource, hcase, tokenize_of_recased hsource hcase⟩

end FortranScope
