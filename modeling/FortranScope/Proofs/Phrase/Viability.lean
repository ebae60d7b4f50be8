import FortranScope.Proofs.Phrase.Halting

/-!
# Viable sequences

Whatever a reading has taken in can be completed: a component or an operand is read for what is
missing, and then everything that is open is closed.  So the tokens before the one that a
sequence is refused at are the beginning of a sequence that spells a phrase, and together with
that token they are not.
-/

namespace FortranScope

namespace Reading

variable {limit : Power} {frames : List Frame} {e : Phrase} {r r' : Reading} {t eof : Token}
  {ts us : List Token}

/-- The end marker ends the reading with a phrase. -/
def Ready (r : Reading) : Prop :=
  ∃ e, ∀ eof : Token, eof.kind = .eof → r.step .lowest eof = .stop e

/-- After some more tokens the reading is ready. -/
def Viable (r : Reading) : Prop :=
  ∃ ts r', (∀ t ∈ ts, t.kind ≠ .eof) ∧ r.Takes .lowest ts r' ∧ r'.Ready

/-- A reading that a token leads on to a viable one is viable. -/
theorem Viable.of_step (ht : t.kind ≠ .eof) (hstep : r.step .lowest t = .shift r')
    (h : r'.Viable) :
  r.Viable
  := by
  obtain ⟨ts, r'', hts, htakes, hready⟩ := h
  exact ⟨t :: ts, r'', List.forall_mem_cons.mpr ⟨ht, hts⟩, ⟨r', hstep, htakes⟩, hready⟩

/-- The closing parenthesis that is put where one is missing. -/
def missingParen : Token := ⟨.closeParen, ")", default⟩

/-- The word that is put where a component or an operand is missing. -/
def missingWord : Token := ⟨.identifier, "x", default⟩

/-- After a phrase what is open can be closed, one construct after another. -/
theorem Ends.viable (h : Ends frames e r) :
  r.Viable
  := by
  induction frames generalizing r e with
  | nil =>
    refine ⟨[], r, by simp, rfl, e, ?_⟩
    intro eof heof
    rw [h.finish (by rw [heof]; rfl) trivial]
    rfl
  | cons frame frames ih =>
    cases frame with
    | prefixed operator span => apply ih h.unary
    | infixed operator left => apply ih h.binary
    | group opening =>
      apply Viable.of_step (by decide) (h.closeGroup (t := missingParen) rfl)
      apply ih ends_complete
    | reference callee args keyword =>
      apply Viable.of_step (by decide) (h.closeArgument (t := missingParen) rfl)
      apply ih ends_complete

/-- Every reading can be completed. -/
theorem viable (r : Reading) :
  r.Viable
  := by
  obtain ⟨frames, focus⟩ := r
  have hliteral := Phrase.literal?_of_identifier (t := missingWord) rfl
  cases focus with
  | operand =>
    apply Viable.of_step (by decide) (Expectant.literal (Or.inl rfl) hliteral)
    apply ends_complete.viable
  | argument =>
    apply Viable.of_step (by decide) (Expectant.literal (Or.inr rfl) hliteral)
    apply ends_complete.viable
  | component base =>
    have hstep := step_component .lowest frames base missingWord
    rw [if_pos (show missingWord.kind = .identifier from rfl)] at hstep
    apply Viable.of_step (by decide) hstep
    apply ends_complete.viable
  | complete e => apply ends_complete.viable

end Reading

namespace Phrase

open Reading

variable {t eof : Token} {ts : List Token} {r : Reading}

/-- What is taken in is the beginning of a sequence that spells a phrase. -/
theorem exists_ofTokens_of_takes (h : start.Takes .lowest ts r) (heof : eof.kind = .eof) :
  ∃ us e, (∀ u ∈ us, u.kind ≠ .eof) ∧ ofTokens (ts ++ us ++ [eof]) = .ok e
  := by
  obtain ⟨us, r', hus, htakes, e, hready⟩ := r.viable
  refine ⟨us, e, hus, ?_⟩
  obtain ⟨u, vs, hcons⟩ := List.exists_cons_of_ne_nil (List.concat_ne_nil eof (ts ++ us))
  rw [hcons, ofTokens_cons, parse, Cursor.readPhrase, run_of_takes (h.append htakes) hcons, run,
    hready eof heof]
  simp [heof]

/-- The outcome of a sequence at the first token that is not taken in. -/
theorem ofTokens_of_takes (h : start.Takes .lowest ts r)
    (hlast : ∀ next, r.step .lowest t ≠ .shift next) (us : List Token) :
  ofTokens (ts ++ t :: us) = match r.step .lowest t with
    | .stop e => if t.kind = .eof then .ok e else .error (Cursor.unexpected t)
    | .fault d _ => .error d
    | .shift _ => .error (Cursor.unexpected t)
  := by
  obtain ⟨u, vs, hcons⟩ := List.exists_cons_of_ne_nil (show ts ++ t :: us ≠ [] by simp)
  rw [hcons, ofTokens_cons, parse, Cursor.readPhrase, run_of_takes h hcons]
  cases hstep : r.step .lowest t with
  | shift next => cases hlast next hstep
  | stop e => cases us <;> rw [run, hstep]
  | fault d taken => cases us <;> rw [run, hstep]

/-- If a token is reported that may not stand where it stands, no sequence that begins with the
tokens up to it spells a phrase, but one that begins with the tokens before it does. -/
theorem refused_first_of_ofTokens {d : Diagnostic} {text : String} (heof : eof.kind = .eof)
    (h : ofTokens (ts ++ [eof]) = .error d) (hcause : d.cause = .unexpectedToken text) :
  ∃ before t after, ts ++ [eof] = before ++ t :: after
    ∧ d = .error (.unexpectedToken t.value) t.span.first
    ∧ (∀ us e, ofTokens (before ++ t :: us) ≠ .ok e)
    ∧ ∃ us e, (∀ u ∈ us, u.kind ≠ .eof) ∧ ofTokens (before ++ us ++ [eof]) = .ok e
  := by
  obtain ⟨before, t, after, r, hts, htakes, hlast⟩ := exists_takes .lowest heof start ts
  have houtcome := ofTokens_of_takes htakes hlast
  refine ⟨before, t, after, hts, ?_, ?_, exists_ofTokens_of_takes htakes heof⟩
  · rw [hts, houtcome] at h
    cases hstep : r.step .lowest t with
    | shift next => cases hlast next hstep
    | stop e =>
      simp only [hstep] at h
      split at h
      · cases h
      · obtain rfl := Except.error.inj h
        rfl
    | fault d' taken =>
      rw [hstep] at h
      obtain rfl := Except.error.inj h
      rcases faultAt_of_step hstep with ⟨hd, -⟩ | ⟨rfl, -⟩
      · exact hd
      · cases hcause
  · intro us e hok
    -- the outcome at `t` does not depend on the tokens after it
    rw [hts, houtcome after, ← houtcome us, hok] at h
    cases h

/-- In `f(a, = x)` the sign is reported, and `f(a,` can be completed. -/
theorem refused_first_of_spare_sign :
  let ts := [Token.mk .identifier "f" default, .mk .openParen "(" default,
    .mk .identifier "a" default, .mk .comma "," default, .mk .assignment "=" default,
    .mk .identifier "x" default, .mk .closeParen ")" default]
  let eof := Token.ending "t.f90" 9
  let d := Cursor.unexpected (.mk .assignment "=" default)
  eof.kind = .eof ∧ ofTokens (ts ++ [eof]) = .error d ∧ d.cause = .unexpectedToken "="
    ∧ ∃ before t after, ts ++ [eof] = before ++ t :: after
      ∧ d = .error (.unexpectedToken t.value) t.span.first
      ∧ (∀ us e, ofTokens (before ++ t :: us) ≠ .ok e)
      ∧ ∃ us e, (∀ u ∈ us, u.kind ≠ .eof) ∧ ofTokens (before ++ us ++ [eof]) = .ok e
  := by
  intro ts eof d
  have h : ofTokens (ts ++ [eof]) = .error d := by rfl
  exact ⟨rfl, h, rfl, refused_first_of_ofTokens rfl h rfl⟩

end Phrase

end FortranScope
