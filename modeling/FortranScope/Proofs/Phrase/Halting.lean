import FortranScope.Proofs.Phrase.Completeness

/-!
# Halting

Reading moves a cursor from token to token, and the cursor stays where it is on the end marker
and on the last token.  `Reading.Halts` counts the steps of a reading that is driven by such a
cursor, so there need not be any number of steps.  Before an end marker there is one: no reading
takes the end marker in, so every reading comes to its outcome at the end marker or before it,
and what follows the end marker makes no difference.
-/

namespace FortranScope

namespace Reading

variable {limit : Power} {frames : List Frame} {e : Phrase} {d : Diagnostic} {taken : Bool}
  {r r' : Reading} {c : Cursor} {t eof : Token} {ts us : List Token}

/-- The reading, driven by the cursor, comes to its outcome and the place where it ends after `n`
steps.  Each step looks at the current token only. -/
inductive Halts (limit : Power) :
    Nat → Reading → Cursor → Except Diagnostic Phrase × Cursor → Prop where
  | stop {r : Reading} {c : Cursor} {e : Phrase} (h : r.step limit c.current = .stop e) :
    Halts limit 1 r c (.ok e, c)
  | fault {r : Reading} {c : Cursor} {d : Diagnostic} {taken : Bool}
    (h : r.step limit c.current = .fault d taken) :
    Halts limit 1 r c (.error d, if taken then c.advance else c)
  | shift {n : Nat} {r next : Reading} {c : Cursor} {outcome : Except Diagnostic Phrase × Cursor}
    (h : r.step limit c.current = .shift next) (hnext : Halts limit n next c.advance outcome) :
    Halts limit (n + 1) r c outcome

/-- Where the sequence has no end marker a reading may never halt: an opening parenthesis that
is the last token is read again and again. -/
theorem not_halts_openParen (ht : t.kind = .openParen) (n : Nat)
    (outcome : Except Diagnostic Phrase × Cursor) :
  ¬ start.Halts limit n ⟨t, []⟩ outcome
  := by
  have hstep (frames : List Frame) :
      step limit ⟨frames, .operand⟩ t = .shift ⟨.group t.span :: frames, .operand⟩ :=
    Expectant.openParen (Or.inl rfl) ht
  have hstays : (Cursor.mk t []).advance = ⟨t, []⟩ := by simp [Cursor.advance]
  -- no number of open groups stops the reading, since each step opens one more
  have hall (frames : List Frame) : ¬ Halts limit n ⟨frames, .operand⟩ ⟨t, []⟩ outcome := by
    induction n generalizing frames with
    | zero =>
      intro h
      cases h
    | succ n ih =>
      intro h
      cases h with
      | stop h =>
        rw [hstep] at h
        cases h
      | fault h =>
        rw [hstep] at h
        cases h
      | shift h hnext =>
        obtain rfl := Step.shift.inj ((hstep frames).symm.trans h)
        rw [hstays] at hnext
        apply ih _ hnext
  apply hall

/-! ## Faults -/

/-- The fault is that the token `t` may not come next, or that the number in it has no value. -/
def FaultAt (t : Token) (d : Diagnostic) (taken : Bool) : Prop :=
  d = Cursor.unexpected t ∧ taken = false
    ∨ d = .error (.numberParseError t.value) t.span.first ∧ taken = true ∧ t.kind = .integer

/-- A refused token is at fault. -/
theorem faultAt_of_refuse (h : refuse t = .fault d taken) :
  FaultAt t d taken
  := by
  obtain ⟨rfl, rfl⟩ := Step.fault.inj h
  exact .inl ⟨rfl, rfl⟩

/-- Where an operand should begin, only the token itself can be at fault. -/
theorem faultAt_of_beginOperand (h : beginOperand frames t = .fault d taken) :
  FaultAt t d taken
  := by
  unfold beginOperand at h
  split at h
  · cases h
  · next hliteral =>
    obtain ⟨rfl, rfl⟩ := Step.fault.inj h
    refine .inr ⟨rfl, rfl, ?_⟩
    unfold Phrase.literal? at hliteral
    split at hliteral
    · assumption
    all_goals cases hliteral
  · split at h
    · cases h
    split at h
    · cases h
    · apply faultAt_of_refuse h

/-- Where an argument should begin, only the token itself can be at fault. -/
theorem faultAt_of_beginArgument (h : beginArgument frames t = .fault d taken) :
  FaultAt t d taken
  := by
  unfold beginArgument at h
  split at h
  · split at h
    · cases h
    · apply faultAt_of_beginOperand h
  · apply faultAt_of_beginOperand h

/-- After a phrase that goes on, only the token itself can be at fault. -/
theorem faultAt_of_extend (h : extend frames e t = .fault d taken) :
  FaultAt t d taken
  := by
  unfold extend at h
  split at h
  · split at h
    · cases h
    · apply faultAt_of_refuse h
  split at h
  · cases h
  split at h
  · cases h
  · apply faultAt_of_refuse h

/-- At the end of a group, only the token itself can be at fault. -/
theorem faultAt_of_endGroup {opening : Span} (h : endGroup opening frames e t = .fault d taken) :
  FaultAt t d taken
  := by
  unfold endGroup at h
  split at h
  · cases h
  · apply faultAt_of_refuse h

/-- At the end of an argument, only the token itself can be at fault. -/
theorem faultAt_of_endArgument {callee : Name} {args : List (Option Name × Phrase)}
    {keyword : Option Name} (h : endArgument callee args keyword frames e t = .fault d taken) :
  FaultAt t d taken
  := by
  unfold endArgument at h
  split at h
  · cases h
  split at h
  · cases h
  split at h
  · split at h
    · cases h
    · apply faultAt_of_refuse h
  · apply faultAt_of_refuse h

/-- At the end of a phrase, only the token itself can be at fault. -/
theorem faultAt_of_finish (h : finish frames e t = .fault d taken) :
  FaultAt t d taken
  := by
  unfold finish at h
  split at h
  · apply faultAt_of_endGroup h
  · apply faultAt_of_endArgument h
  · cases h

/-- Every fault is at the token that it is found at. -/
theorem faultAt_of_step (h : r.step limit t = .fault d taken) :
  FaultAt t d taken
  := by
  obtain ⟨frames, focus⟩ := r
  cases focus with
  | operand => apply faultAt_of_beginOperand h
  | argument => apply faultAt_of_beginArgument h
  | component base =>
    rw [step_component] at h
    split at h
    · cases h
    · apply faultAt_of_refuse h
  | complete e =>
    rw [step_complete, afterPhrase_eq] at h
    split at h
    · apply faultAt_of_finish h
    · apply faultAt_of_extend h

/-- Only a complete phrase ends a reading. -/
theorem exists_complete_of_step (h : r.step limit t = .stop e) :
  ∃ e', r.focus = .complete e'
  := by
  obtain ⟨frames, focus⟩ := r
  cases focus with
  | operand => cases beginOperand_ne_stop h
  | argument =>
    change beginArgument frames t = .stop e at h
    unfold beginArgument at h
    split at h
    · split at h
      · cases h
      · cases beginOperand_ne_stop h
    · cases beginOperand_ne_stop h
  | component base =>
    rw [step_component] at h
    split at h
    all_goals cases h
  | complete e' => use e'

/-! ## The first token that is not taken in -/

/-- Some token up to the end marker is the first that is not taken in. -/
theorem exists_takes (limit : Power) (heof : eof.kind = .eof) (r : Reading) (ts : List Token) :
  ∃ us t vs r', ts ++ [eof] = us ++ t :: vs ∧ r.Takes limit us r'
    ∧ ∀ next, r'.step limit t ≠ .shift next
  := by
  induction ts generalizing r with
  | nil => exact ⟨[], eof, [], r, rfl, rfl, fun _ => step_ne_shift_of_eof heof⟩
  | cons t ts ih =>
    by_cases hstep : ∃ next, r.step limit t = .shift next
    · obtain ⟨next, hnext⟩ := hstep
      obtain ⟨us, u, vs, r', hts, htakes, hlast⟩ := ih next
      refine ⟨t :: us, u, vs, r', ?_, ⟨next, hnext, htakes⟩, hlast⟩
      rw [List.cons_append, hts, List.cons_append]
    · exact ⟨[], t, ts ++ [eof], r, rfl, rfl, not_exists.mp hstep⟩

/-- The tokens that are taken in are as many steps. -/
theorem Takes.halts {n : Nat} {outcome : Except Diagnostic Phrase × Cursor}
    (h : r.Takes limit ts r') {u : Token} (hlast : r'.Halts limit n ⟨u, us⟩ outcome)
    (hc : c.tokens = ts ++ u :: us) :
  r.Halts limit (ts.length + n) c outcome
  := by
  obtain ⟨current, rest⟩ := c
  induction ts generalizing r current rest with
  | nil =>
    obtain rfl : r = r' := h
    obtain ⟨rfl, rfl⟩ := List.cons.inj hc
    rw [List.length_nil, Nat.zero_add]
    apply hlast
  | cons t ts ih =>
    obtain ⟨next, hstep, hnext⟩ := h
    rw [List.cons_append] at hc
    obtain ⟨rfl, rfl⟩ := List.cons.inj hc
    obtain ⟨v, vs, hv⟩ := List.exists_cons_of_ne_nil (show ts ++ u :: us ≠ [] by simp)
    have hmoves : (Cursor.mk current (ts ++ u :: us)).advance = ⟨v, vs⟩ := by
      rw [hv, Cursor.advance, if_neg fun hkind => step_ne_shift_of_eof hkind hstep]
    rw [List.length_cons, Nat.add_right_comm]
    apply Halts.shift hstep
    rw [hmoves]
    apply ih hnext v vs hv.symm

/-- A token that is not taken in ends the reading at once. -/
theorem exists_halts_of_last (hlast : ∀ next, r.step limit t ≠ .shift next) :
  ∃ (outcome : Except Diagnostic Phrase) (taken : Bool), (taken = true → t.kind ≠ .eof)
    ∧ (∀ e, outcome = .ok e → ∃ e', r.focus = .complete e')
    ∧ ∀ us, ∃ next : Cursor, next = (if taken then (Cursor.mk t us).advance else ⟨t, us⟩)
      ∧ r.Halts limit 1 ⟨t, us⟩ (outcome, next) ∧ r.run limit t us = (outcome, next)
  := by
  cases hstep : r.step limit t with
  | shift next => cases hlast next hstep
  | stop e =>
    refine ⟨.ok e, false, Bool.noConfusion, fun e _ => exists_complete_of_step hstep, ?_⟩
    intro us
    use ⟨t, us⟩, rfl, .stop hstep
    cases us <;> rw [run, hstep]
  | fault d taken =>
    have hkind : taken = true → t.kind ≠ .eof := by
      rintro rfl
      rcases faultAt_of_step hstep with ⟨-, h⟩ | ⟨-, -, h⟩
      · cases h
      · simp [h]
    refine ⟨.error d, taken, hkind, by simp, ?_⟩
    intro us
    refine ⟨_, rfl, .fault hstep, ?_⟩
    cases us with
    | nil =>
      rw [run, hstep]
      cases taken <;> simp [Cursor.advance]
    | cons v vs =>
      rw [run, hstep]
      cases taken with
      | false => rfl
      | true => simp [Cursor.advance, hkind rfl]

/-- Before an end marker a reading halts, and the cursor does not get past the marker. -/
theorem exists_halts (limit : Power) (heof : eof.kind = .eof) (r : Reading)
    (before : List Token) :
  ∃ (outcome : Except Diagnostic Phrase) (n k : Nat), n ≤ before.length + 1
    ∧ k ≤ before.length ∧ (∀ e, outcome = .ok e → k = 0 → ∃ e', r.focus = .complete e')
    ∧ ∀ (c : Cursor) (after : List Token), c.tokens = before ++ eof :: after →
      ∃ next : Cursor, next.tokens = before.drop k ++ eof :: after
        ∧ r.Halts limit n c (outcome, next) ∧ r.run limit c.current c.rest = (outcome, next)
  := by
  obtain ⟨us, t, vs, r', hbefore, htakes, hlast⟩ := exists_takes limit heof r before
  obtain ⟨outcome, taken, hkind, hok, hhalts⟩ := exists_halts_of_last hlast
  have hlength : before.length + 1 = us.length + (vs.length + 1) := by
    simpa using congrArg List.length hbefore
  -- a token that is taken is not the end marker, so others follow it
  have hne : taken = true → vs ≠ [] := by
    rintro htaken rfl
    obtain ⟨-, heq⟩ := List.append_inj' hbefore rfl
    apply hkind htaken
    rw [← (List.cons.inj heq).1, heof]
  have hk : us.length + taken.toNat ≤ before.length := by
    cases taken with
    | false =>
      rw [Bool.toNat_false]
      omega
    | true =>
      have hvs := List.length_pos_iff.mpr (hne rfl)
      rw [Bool.toNat_true]
      omega
  refine ⟨outcome, us.length + 1, us.length + taken.toNat, by omega, hk, ?_, ?_⟩
  · intro e he hzero
    obtain rfl : us = [] := List.length_eq_zero_iff.mp (by omega)
    obtain rfl : r = r' := htakes
    apply hok e he
  · intro c after hc
    have hwhole : before ++ eof :: after = us ++ t :: (vs ++ after) := by
      rw [List.append_cons, hbefore, List.append_assoc, List.cons_append]
    rw [hwhole] at hc
    obtain ⟨next, hnext, hend, hrun⟩ := hhalts (vs ++ after)
    refine ⟨next, ?_, htakes.halts hend hc, ?_⟩
    · rw [← List.drop_append_of_le_length hk, hwhole, ← List.drop_drop, List.drop_left, hnext]
      cases taken with
      | false => rfl
      | true =>
        have hmore := List.append_ne_nil_of_left_ne_nil (hne rfl) after
        obtain ⟨v, ws, hv⟩ := List.exists_cons_of_ne_nil hmore
        rw [if_pos rfl, hv, Cursor.advance, if_neg (hkind rfl)]
        rfl
    · rw [← hrun, run_of_takes htakes hc.symm]

end Reading

/-- The current token of a cursor is the first one left, even if nothing is left but the last one.
-/
theorem Cursor.current_eq {c : Cursor} {t : Token} {ts rest : List Token}
    (h : c.tokens = ts ++ t :: rest) :
  c.current = ts.head?.getD t
  := by
  cases ts with
  | nil => apply (List.cons.inj h).1
  | cons u us => apply (List.cons.inj h).1

/-- Before an end marker the reading of a phrase halts, after no more steps than there are tokens up
to the marker.  The cursor does not get past the marker, and gets past a token if there is a
phrase.  What follows the marker makes no difference. -/
theorem Cursor.readPhrase_halts (before : List Token) {eof : Token} (heof : eof.kind = .eof)
    (limit : Power) :
  (∃ (outcome : Except Diagnostic Phrase) (n k : Nat), n ≤ before.length + 1
      ∧ k ≤ before.length ∧ (∀ e, outcome = .ok e → 0 < k)
      ∧ ∀ (c : Cursor) (after : List Token), c.tokens = before ++ eof :: after →
        ∃ next : Cursor, next.tokens = before.drop k ++ eof :: after
          ∧ Reading.start.Halts limit n c (outcome, next)
          ∧ c.readPhrase limit = (outcome, next))
    ∧ ∀ after after', Phrase.ofTokens (before ++ eof :: after)
      = Phrase.ofTokens (before ++ eof :: after')
  := by
  constructor
  · obtain ⟨outcome, n, k, hn, hk, hok, hhalts⟩ := Reading.exists_halts limit heof .start before
    refine ⟨outcome, n, k, hn, hk, ?_, hhalts⟩
    intro e he
    apply Nat.pos_of_ne_zero
    intro hzero
    obtain ⟨e', he'⟩ := hok e he hzero
    cases he'
  · obtain ⟨outcome, n, k, -, -, -, hhalts⟩ :=
      Reading.exists_halts .lowest heof .start before
    -- the token that is looked at after the phrase is the same, too
    have hparse (after : List Token) : ∃ next : Cursor,
        next.current = (before.drop k).head?.getD eof
          ∧ Phrase.ofTokens (before ++ eof :: after) = match outcome with
            | .error d => .error d
            | .ok e =>
              if next.current.kind = .eof then .ok e
              else .error (Cursor.unexpected next.current) := by
      obtain ⟨t, rest, hcons⟩ := List.exists_cons_of_ne_nil
        (show before ++ eof :: after ≠ [] by simp)
      obtain ⟨next, htokens, -, hrun⟩ := hhalts ⟨t, rest⟩ after hcons.symm
      use next, Cursor.current_eq htokens
      rw [hcons, Phrase.ofTokens_cons, Phrase.parse, Cursor.readPhrase, hrun]
      cases outcome <;> rfl
    intro after after'
    obtain ⟨next, hcurrent, hafter⟩ := hparse after
    obtain ⟨next', hcurrent', hafter'⟩ := hparse after'
    rw [hafter, hafter', hcurrent, hcurrent']

/-- `a)` before the end marker, where the phrase ends before the parenthesis, and `(a` after it. -/
theorem Cursor.readPhrase_halts_closeParen :
  let before := [Token.mk .identifier "a" default, .mk .closeParen ")" default]
  let eof := Token.ending "t.f90" 2
  eof.kind = .eof
    ∧ (∃ (outcome : Except Diagnostic Phrase) (n k : Nat), n ≤ before.length + 1
      ∧ k ≤ before.length ∧ (∀ e, outcome = .ok e → 0 < k)
      ∧ ∀ (c : Cursor) (after : List Token), c.tokens = before ++ eof :: after →
        ∃ next : Cursor, next.tokens = before.drop k ++ eof :: after
          ∧ Reading.start.Halts .suffix n c (outcome, next)
          ∧ c.readPhrase .suffix = (outcome, next))
    ∧ Phrase.ofTokens (before ++ [eof, .mk .openParen "(" default, .mk .identifier "a" default])
      = Phrase.ofTokens (before ++ [eof])
  := by
  intro before eof
  have heof : eof.kind = .eof := rfl
  obtain ⟨hhalts, hafter⟩ := Cursor.readPhrase_halts before heof .suffix
  exact ⟨heof, hhalts, hafter _ []⟩

end FortranScope
