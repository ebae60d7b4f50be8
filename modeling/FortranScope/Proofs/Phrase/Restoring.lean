import FortranScope.Proofs.Phrase.Writing

/-!
# What is read is written back

The tokens of a phrase fill its slots: nothing that is read gets lost, and nothing else is
put in its place.
-/

namespace FortranScope

/-! ## Tokens of one kind -/

namespace Token

variable {t : Token}

/-- The token of an integer literal agrees with the one that its value and kind are written by. -/
theorem agrees_integer {n : Int} (hkind : t.kind = .integer)
    (hn : Integer.ofText? .value (splitKind t.value).1 = some n) :
  t.Agrees (unplaced .integer (withKind (toString n) (splitKind t.value).2))
  := by
  have hsplit := splitKind_withKind (splitKind t.value).2 (Integer.underscore_notMem_toString n)
  use hkind
  simp only [unplaced]
  rw [hsplit]
  exact ⟨⟨n, hn, Integer.ofText?_toString (Integer.fits_of_ofText? hn)⟩, rfl⟩

/-- The token of a logical literal agrees with the one that its value is written by. -/
theorem agrees_logical (hkind : t.kind = .logical) :
  t.Agrees (unplaced .logical (if decide (t.value = ".true.") then ".true." else ".false."))
  := by
  use hkind
  simp only [unplaced, decide_eq_true_eq]
  split
  · next hvalue => simp [hvalue]
  · next hvalue => simp [hvalue]

theorem agrees_identifier (hkind : t.kind = .identifier) :
  t.Agrees (unplaced .identifier (Name.ofSpelling t.value t.span).text)
  := ⟨hkind, rfl⟩

end Token

namespace Phrase

variable {e : Phrase} {ts : List Token} {t eof : Token}

/-- A token that is an operand by itself is written back. -/
theorem fills_of_literal? (h : literal? t = some (some e)) :
  Fills Token.Agrees e.slots [t]
  := by
  rcases cases_of_literal? h with ⟨hkind, n, hn, rfl⟩ | ⟨hkind, rfl⟩ | ⟨hkind, rfl⟩
    | ⟨hkind, rfl⟩ | ⟨hkind, rfl⟩
  · apply Fills.singleton (Token.agrees_integer hkind hn)
  · rw [slots, withKind_splitKind]
    apply Fills.singleton ⟨hkind, rfl⟩
  · apply Fills.singleton ⟨hkind, rfl⟩
  · apply Fills.singleton (Token.agrees_logical hkind)
  · apply Fills.singleton (Token.agrees_identifier hkind)

/-- A keyword fills the slots that it is written in. -/
theorem KeywordSpelled.fills {keyword : Option Name} (h : KeywordSpelled keyword ts) :
  Fills Token.Agrees ((keywordTokens keyword).map .token) ts
  := by
  cases keyword with
  | none =>
    obtain rfl : ts = [] := h
    apply Fills.nil
  | some keyword =>
    obtain ⟨word, sign, rfl, hword, hsign, rfl⟩ := h
    apply Fills.token (Token.agrees_identifier hword)
    apply Fills.singleton (Token.agrees_of_not_carriesValue rfl hsign)

mutual

/-- The tokens that spell a phrase fill its slots. -/
theorem Spelled.fills (e : Phrase) {ts : List Token} (h : e.Spelled ts) :
  Fills Token.Agrees e.slots ts
  := by
  match e, h with
  | .integer _ _ _, ⟨t, hts, ht⟩ | .real _ _ _, ⟨t, hts, ht⟩ | .character _ _, ⟨t, hts, ht⟩
  | .logical _ _, ⟨t, hts, ht⟩ | .designator _, ⟨t, hts, ht⟩ =>
    subst hts
    apply fills_of_literal? ht
  | .component base name, ⟨us, percent, word, hts, hbase, hpercent, hword, hname⟩ =>
    subst hts hname
    apply (hbase.fills base).append
    apply Fills.token (Token.agrees_of_not_carriesValue rfl hpercent)
    apply Fills.singleton (Token.agrees_identifier hword)
  | .reference callee args span, ⟨word, opening, us, closing, hts, hword, hcallee, hopening,
      hargs, hclosing, hspan⟩ =>
    subst hts hcallee
    apply Fills.token (Token.agrees_identifier hword)
    apply Fills.token (Token.agrees_of_not_carriesValue rfl hopening)
    apply (hargs.fills args).append
    apply Fills.singleton (Token.agrees_of_not_carriesValue rfl hclosing)
  | .parentheses inner span, ⟨opening, us, closing, hts, hopening, hinner, hclosing, hspan⟩ =>
    subst hts
    apply Fills.token (Token.agrees_of_not_carriesValue rfl hopening)
    apply (hinner.fills inner).append
    apply Fills.singleton (Token.agrees_of_not_carriesValue rfl hclosing)
  | .unary operator operand span, ⟨t, us, hts, ht, hoperand, hspan⟩ =>
    subst hts
    apply Fills.token (PrefixOperator.agrees_token ht) (hoperand.fills operand)
  | .binary operator left right, ⟨us, t, vs, hts, hleft, ht, hright⟩ =>
    subst hts
    apply (hleft.fills left).append
    apply Fills.token (InfixOperator.agrees_token ht) (hright.fills right)

/-- The tokens that spell an argument list fill its slots. -/
theorem ArgList.Spelled.fills (args : ArgList) {ts : List Token} (h : args.Spelled ts) :
  Fills Token.Agrees args.slots ts
  := by
  match args, h with
  | .nil, h =>
    obtain rfl : ts = [] := h
    apply Fills.nil
  | .cons keyword value .nil, ⟨ks, us, vs, hts, hks, hus, hrest⟩ =>
    subst hts
    apply hks.fills.append
    apply (hus.fills value).append
    rcases hrest with ⟨-, hvs⟩ | ⟨comma, ws, hvs, hcomma, hws⟩
    · subst hvs
      apply Fills.noComma Fills.nil
    · obtain rfl : ws = [] := hws
      subst hvs
      apply Fills.comma hcomma Fills.nil
  | .cons keyword value (.cons keyword' value' rest), ⟨ks, us, vs, hts, hks, hus, hrest⟩ =>
    subst hts
    apply hks.fills.append
    apply (hus.fills value).append
    rcases hrest with ⟨hnil, -⟩ | ⟨comma, ws, hvs, hcomma, hws⟩
    · cases hnil
    · subst hvs
      apply Fills.token (Token.agrees_of_not_carriesValue rfl hcomma)
      apply hws.fills (.cons keyword' value' rest)

end

/-- A phrase that is read from a sequence with its end marker is written by the tokens before
the marker, but for a comma after the last argument of a list, and its operators are grouped
as their powers demand. -/
theorem fills_and_graded_of_ofTokens (hts : ∀ t ∈ ts, t.kind ≠ .eof) (heof : eof.kind = .eof)
    (h : ofTokens (ts ++ [eof]) = .ok e) :
  Fills Token.Agrees e.slots ts ∧ e.Graded
  := by
  obtain ⟨hspelled, hgraded⟩ := (ofTokens_eq_ok_iff hts heof).mp h
  exact ⟨hspelled.fills e, hgraded⟩

/-- `F(-a**2_k,)`, where a comma stands after the only argument. -/
theorem fills_and_graded_of_spare_comma :
  let ts := [Token.unplaced .identifier "F", .unplaced .openParen "(", .unplaced .dash "-",
    .unplaced .identifier "a", .unplaced .power "**", .unplaced .integer "2_k",
    .unplaced .comma ",", .unplaced .closeParen ")"]
  let e := reference ⟨"f", default⟩ (.cons none (unary (.intrinsic .negate) (binary
    (.intrinsic .power) (designator ⟨"a", default⟩) (integer 2 (some "k") default)) default)
    .nil) default
  (∀ t ∈ ts, t.kind ≠ .eof) ∧ ofTokens (ts ++ [.unplaced .eof "EOF"]) = .ok e
    ∧ Fills Token.Agrees e.slots ts ∧ e.Graded
  := by
  have heof : (Token.unplaced .eof "EOF").kind = .eof := rfl
  exact ⟨by decide, by rfl, fills_and_graded_of_ofTokens (by decide) heof (by rfl)⟩

/-- Not every text is restored.  Every text of a logical literal but `.true.` counts as false, so
a token with the text `.TRUE.` is written back as `.false.`, and no way of writing phrases gives
back the text of every such token.  Of an operator nothing is kept but what it denotes. -/
theorem logical_text_not_restored :
  ofTokens [⟨.logical, ".TRUE.", ⟨"t.f90", 0, 6⟩⟩, .ending "t.f90" 6]
      = .ok (logical false ⟨"t.f90", 0, 6⟩)
    ∧ ¬ Fills (fun t written => t.kind = written.kind ∧ t.value = written.value)
      (logical false ⟨"t.f90", 0, 6⟩).slots [⟨.logical, ".TRUE.", ⟨"t.f90", 0, 6⟩⟩]
    ∧ (¬ ∃ write : Phrase → List String, ∀ t e, t.kind = .logical →
      ofTokens [t, .ending "t.f90" 6] = .ok e → write e = [t.value])
    ∧ ∀ text ∈ ["==", ".eq."],
      ofTokens [.unplaced .identifier "a", .unplaced .equals text, .unplaced .identifier "b",
          .unplaced .eof "EOF"]
        = .ok (binary (.intrinsic .eq) (designator ⟨"a", default⟩) (designator ⟨"b", default⟩))
  := by
  refine ⟨by rfl, ?_, ?_, ?_⟩
  · intro h
    cases h with
    | token ht _ => exact absurd ht.2 (by decide)
  · rintro ⟨write, hwrite⟩
    have hupper := hwrite ⟨.logical, ".TRUE.", default⟩ (logical false default) rfl (by rfl)
    have hfalse := hwrite ⟨.logical, ".false.", default⟩ (logical false default) rfl (by rfl)
    rw [hupper] at hfalse
    exact absurd hfalse (by decide)
  · rintro text (_ | ⟨_, _ | ⟨_, ⟨⟩⟩⟩)
    · rfl
    · rfl

end Phrase

end FortranScope
