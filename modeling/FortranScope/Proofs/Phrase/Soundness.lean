import FortranScope.Proofs.Phrase.Stack

/-!
# Readings are spelled by their tokens

`Reading.Reached` is the invariant of a reading: the constructs it left open and the phrase
it completed are spelled by the tokens read so far, and they are graded.  Each token that is
taken in keeps it, so a phrase that a reading ends with is spelled by the tokens before the
one it ended at.
-/

namespace FortranScope.Reading

variable {limit : Power} {frames : List Frame} {e : Phrase} {ts us vs : List Token} {t : Token}
  {r r' : Reading}

/-- The tokens `ts` amount to the reading `r`. -/
def Reached (limit : Power) (ts : List Token) (r : Reading) : Prop :=
  match r.focus with
  | .operand => FramesSpelled r.frames ts ∧ FramesGraded limit r.frames
  | .argument =>
    (∃ callee args outer, r.frames = .reference callee args none :: outer)
      ∧ FramesSpelled r.frames ts ∧ FramesGraded limit r.frames
  | .component base =>
    ∃ us percent, ts = us ++ [percent] ∧ percent.kind = .percent
      ∧ Pending limit us r.frames base ∧ base.YieldsTo .suffix
  | .complete e => Pending limit ts r.frames e ∧ e.rightEdge = []

theorem reached_start (limit : Power) :
  Reached limit [] start
  := ⟨rfl, trivial⟩

/-- A phrase without open operators after the constructs that are open. -/
theorem reached_complete (hframes : FramesSpelled frames us)
    (hgraded : FramesGraded limit frames) (hspelled : e.Spelled vs) (he : e.Graded)
    (hedge : e.rightEdge = []) :
  Reached limit (us ++ vs) ⟨frames, .complete e⟩
  := by
  constructor
  · constructor
    · use us, vs
    · apply hgraded
    · apply he
    · apply Phrase.exceeds_of_rightEdge_eq_nil hedge
  · apply hedge

/-! ## One token -/

/-- The beginning of an operand amounts to the reading after it. -/
theorem reached_of_beginOperand (hframes : FramesSpelled frames ts)
    (hgraded : FramesGraded limit frames) (h : beginOperand frames t = .shift r) :
  Reached limit (ts ++ [t]) r
  := by
  rw [beginOperand] at h
  split at h
  · next e hliteral =>
    obtain rfl := Step.shift.inj h
    obtain ⟨hspelled, he, hedge⟩ := Phrase.spelled_of_literal? hliteral
    apply reached_complete hframes hgraded hspelled he hedge
  · cases h
  · split at h
    · next hkind =>
      obtain rfl := Step.shift.inj h
      constructor
      · use ts, [t], rfl, hframes, t
      · use trivial, trivial
    · split at h
      · next operator hoperator =>
        obtain rfl := Step.shift.inj h
        constructor
        · use ts, [t], rfl, hframes, t
        · use trivial, trivial
      · cases h

/-- The end of an argument list after the arguments `args`. -/
theorem reached_closeReference {callee : Name} {args : List (Option Name × Phrase)}
    {word opening : Token} (hframes : FramesSpelled frames ts)
    (hgraded : FramesGraded limit frames) (hword : word.kind = .identifier)
    (hcallee : callee = Name.ofSpelling word.value word.span)
    (hopening : opening.kind = .openParen) (hargs : (Phrase.ArgList.ofList args).Spelled us)
    (hargs' : (Phrase.ArgList.ofList args).Graded) (ht : t.kind = .closeParen) :
  Reached limit (ts ++ word :: opening :: (us ++ [t]))
    ⟨frames, .complete (closeReference callee args t)⟩
  := by
  apply reached_complete hframes hgraded
  · use word, opening, us, t, rfl, hword, hcallee, hopening, hargs, ht
  · apply hargs'
  · rfl

/-- The beginning of an argument, or of its keyword, amounts to the reading after it. -/
theorem reached_of_beginArgument {callee : Name} {args : List (Option Name × Phrase)}
    {outer : List Frame} (hframes : FramesSpelled (.reference callee args none :: outer) ts)
    (hgraded : FramesGraded limit (.reference callee args none :: outer))
    (h : beginArgument (.reference callee args none :: outer) t = .shift r) :
  Reached limit (ts ++ [t]) r
  := by
  rw [beginArgument] at h
  split at h
  · next hkind =>
    obtain rfl := Step.shift.inj h
    obtain ⟨us, _, rfl, hus, word, opening, as, ks, rfl, hword, hcallee, hopening, has, hks⟩ :=
      hframes
    obtain rfl : ks = [] := hks
    have hargs : (Phrase.ArgList.ofList (args ++ [])).Spelled (as ++ []) := has.append rfl
    simp only [List.append_nil] at hargs
    simpa using reached_closeReference hus hgraded.2.2 hword hcallee hopening hargs hgraded.1
      hkind
  · apply reached_of_beginOperand hframes hgraded h

/-- What continues a phrase amounts to the reading after it, if operators with more power were
completed before. -/
theorem reached_of_extend (h : Pending limit ts frames e) (hyields : e.YieldsTo t.kind.leftPower)
    (hbound : bound limit frames < t.kind.leftPower) (hstep : extend frames e t = .shift r) :
  Reached limit (ts ++ [t]) r
  := by
  unfold extend at hstep
  split at hstep
  · next hkind =>
    split at hstep
    · next callee =>
      obtain rfl := Step.shift.inj hstep
      obtain ⟨us, vs, rfl, hus, hvs⟩ := h.spelled
      obtain ⟨word, rfl, hword, hcallee⟩ := Phrase.word_of_spelled_designator hvs
      refine ⟨⟨callee, [], frames, rfl⟩, ?_, trivial, trivial, h.frames_graded⟩
      use us, [word, t], by simp, hus, word, t, [], [], rfl, hword, hcallee, hkind, rfl
      rfl
    · cases hstep
  · split at hstep
    · next hkind =>
      obtain rfl := Step.shift.inj hstep
      rw [hkind] at hyields
      use ts, t, rfl, hkind, h, hyields
    · split at hstep
      · next operator hoperator =>
        obtain rfl := Step.shift.inj hstep
        obtain ⟨us, vs, rfl, hus, hvs⟩ := h.spelled
        rw [InfixOperator.leftPower_of_ofToken? hoperator] at hyields hbound
        constructor
        · use us, vs ++ [t], by simp, hus, vs, t
        · use ⟨h.graded, hyields⟩, hbound, h.frames_graded
      · cases hstep

/-- The parenthesis at the end of a group amounts to the reading after it. -/
theorem reached_of_endGroup {opening : Span} {outer : List Frame}
    (h : Pending limit ts (.group opening :: outer) e)
    (hstep : endGroup opening outer e t = .shift r) :
  Reached limit (ts ++ [t]) r
  := by
  rw [endGroup] at hstep
  split at hstep
  · next hkind =>
    obtain rfl := Step.shift.inj hstep
    obtain ⟨_, vs, rfl, ⟨us, _, rfl, hus, o, rfl, ho, rfl⟩, hvs⟩ := h.spelled
    have hspelled : (Phrase.parentheses e (o.span.through t.span)).Spelled (o :: (vs ++ [t])) :=
      ⟨o, vs, t, rfl, ho, hvs, hkind, rfl⟩
    simpa using reached_complete hus h.frames_graded.2.2 hspelled h.graded rfl
  · cases hstep

/-- The end of an argument amounts to the reading after it. -/
theorem reached_of_endArgument {callee : Name} {args : List (Option Name × Phrase)}
    {keyword : Option Name} {outer : List Frame}
    (h : Pending limit ts (.reference callee args keyword :: outer) e)
    (hstep : endArgument callee args keyword outer e t = .shift r) :
  Reached limit (ts ++ [t]) r
  := by
  obtain ⟨⟨_, vs, rfl, ⟨us, _, rfl, hus, word, opening, as, ks, rfl, hword, hcallee, hopening,
    has, hks⟩, hvs⟩, ⟨hargs, -, houter⟩, he, -⟩ := h
  have hargs' : (Phrase.ArgList.ofList (args ++ [(keyword, e)])).Graded :=
    Phrase.graded_ofList_append.mpr ⟨hargs, he, trivial⟩
  unfold endArgument at hstep
  split at hstep
  · -- a closing parenthesis ends the last argument and the reference
    next hkind =>
    obtain rfl := Step.shift.inj hstep
    have hall := has.append (Phrase.spelled_singleton hks hvs)
    simpa using reached_closeReference hus houter hword hcallee hopening hall hargs' hkind
  · split at hstep
    · -- a comma ends the argument
      next hkind =>
      obtain rfl := Step.shift.inj hstep
      refine ⟨⟨callee, _, outer, rfl⟩, ?_, hargs', trivial, houter⟩
      use us, word :: opening :: (as ++ (ks ++ (vs ++ [t])) ++ []), by simp, hus
      use word, opening, as ++ (ks ++ (vs ++ [t])), [], rfl, hword, hcallee, hopening
      use has.concat hks hvs hkind
      rfl
    · split at hstep
      · -- an equals sign makes the name before it the keyword of the argument
        next hkind =>
        split at hstep
        · next name =>
          obtain rfl := Step.shift.inj hstep
          obtain rfl : ks = [] := hks
          obtain ⟨u, rfl, hu, hname⟩ := Phrase.word_of_spelled_designator hvs
          constructor
          · use us, word :: opening :: (as ++ [u, t]), by simp, hus
            use word, opening, as, [u, t], rfl, hword, hcallee, hopening, has, u, t
          · use hargs, trivial
        · cases hstep
      · cases hstep

/-- What ends a phrase inside a construct amounts to the reading after it. -/
theorem reached_of_finish (h : Pending limit ts frames e) (hstep : finish frames e t = .shift r) :
  Reached limit (ts ++ [t]) r
  := by
  unfold finish at hstep
  split at hstep
  · apply reached_of_endGroup h hstep
  · apply reached_of_endArgument h hstep
  · cases hstep

/-- A token that is taken in keeps the invariant. -/
theorem Reached.step (h : Reached limit ts r) (hstep : r.step limit t = .shift r') :
  Reached limit (ts ++ [t]) r'
  := by
  obtain ⟨frames, focus⟩ := r
  cases focus with
  | operand => apply reached_of_beginOperand h.1 h.2 hstep
  | argument =>
    obtain ⟨⟨callee, args, outer, hframes⟩, hspelled, hgraded⟩ := h
    simp only at hframes hspelled hgraded
    subst hframes
    apply reached_of_beginArgument hspelled hgraded hstep
  | component base =>
    obtain ⟨us, percent, rfl, hpercent, hbase, hyields⟩ := h
    obtain ⟨⟨vs, ws, rfl, hvs, hws⟩, hgraded, hbase, -⟩ := hbase
    rw [step_component] at hstep
    split at hstep
    · next hkind =>
      obtain rfl := Step.shift.inj hstep
      have hspelled : (Phrase.component base (Name.ofSpelling t.value t.span)).Spelled
          (ws ++ [percent, t]) :=
        ⟨ws, percent, t, rfl, hws, hpercent, hkind, rfl⟩
      simpa using reached_complete hvs hgraded hspelled ⟨hbase, hyields⟩ rfl
    · cases hstep
  | complete e =>
    -- The operators that `t` completes make one phrase, which either ends its construct or
    -- becomes an operand of `t`.
    obtain ⟨hpending, hedge⟩ := h
    obtain ⟨hpending, hyields⟩ :=
      hpending.reduce (Phrase.yieldsTo_of_rightEdge_eq_nil hedge t.kind.leftPower)
    rw [step_complete, afterPhrase_eq] at hstep
    split at hstep
    · apply reached_of_finish hpending hstep
    · next hbound => apply reached_of_extend hpending hyields (Power.not_le.mp hbound) hstep

/-! ## The end of a phrase -/

/-- No phrase ends where an operand should begin. -/
theorem beginOperand_ne_stop :
  beginOperand frames t ≠ .stop e
  := by
  unfold beginOperand refuse
  repeat' split
  all_goals simp

/-- No phrase ends with a token that continues it. -/
theorem extend_ne_stop {e' : Phrase} :
  extend frames e t ≠ .stop e'
  := by
  unfold extend refuse
  repeat' split
  all_goals simp

/-- Inside a construct a phrase never ends the reading. -/
theorem eq_nil_of_finish_eq_stop {e' : Phrase} (hsettled : Settled power frames)
    (hbound : power ≤ bound limit frames) (h : finish frames e t = .stop e') :
  frames = [] ∧ e = e'
  := by
  match frames with
  | [] => exact ⟨rfl, Step.stop.inj h⟩
  | .prefixed _ _ :: _ => cases Power.not_le.mpr hsettled hbound
  | .infixed _ _ :: _ => cases Power.not_le.mpr hsettled hbound
  | .group _ :: _ =>
    simp only [finish, endGroup, refuse] at h
    split at h
    all_goals cases h
  | .reference _ _ _ :: _ =>
    simp only [finish, endArgument, refuse] at h
    repeat' split at h
    all_goals cases h

/-- The phrase that a token stops at is spelled by the tokens before it. -/
theorem Reached.stop (h : Reached limit ts r) (hstep : r.step limit t = .stop e) :
  e.Spelled ts ∧ e.Graded ∧ e.Exceeds limit
  := by
  obtain ⟨frames, focus⟩ := r
  cases focus with
  | operand => cases beginOperand_ne_stop hstep
  | argument =>
    obtain ⟨⟨callee, args, outer, hframes⟩, -, -⟩ := h
    simp only at hframes
    subst hframes
    change beginArgument (.reference callee args none :: outer) t = .stop e at hstep
    rw [beginArgument] at hstep
    split at hstep
    · cases hstep
    · cases beginOperand_ne_stop hstep
  | component base =>
    rw [step_component] at hstep
    split at hstep
    all_goals cases hstep
  | complete e =>
    obtain ⟨hpending, hedge⟩ := h
    obtain ⟨hpending, -⟩ :=
      hpending.reduce (Phrase.yieldsTo_of_rightEdge_eq_nil hedge t.kind.leftPower)
    rw [step_complete, afterPhrase_eq] at hstep
    split at hstep
    · next hbound =>
      obtain ⟨hframes, rfl⟩ :=
        eq_nil_of_finish_eq_stop (settled_reduce _ _ _) hbound hstep
      obtain ⟨⟨us, vs, rfl, hus, hvs⟩, -, hgraded, hexceeds⟩ := hpending
      rw [hframes] at hus hexceeds
      obtain rfl : us = [] := hus
      exact ⟨hvs, hgraded, hexceeds⟩
    · cases extend_ne_stop hstep

/-! ## The whole sequence -/

/-- The end marker begins no operand. -/
theorem beginOperand_of_eof (ht : t.kind = .eof) :
  beginOperand frames t = refuse t
  := by
  simp [beginOperand, Phrase.literal?, PrefixOperator.ofToken?, UnaryOperator.ofTokenKind?, ht]

/-- The end marker is never shifted. -/
theorem finish_ne_shift_of_eof (ht : t.kind = .eof) :
  finish frames e t ≠ .shift r
  := by
  unfold finish
  split
  · simp [endGroup, refuse, ht]
  · simp [endArgument, refuse, ht]
  · simp

/-- The end of a sequence is never taken in. -/
theorem step_ne_shift_of_eof (ht : t.kind = .eof) :
  r.step limit t ≠ .shift r'
  := by
  obtain ⟨frames, focus⟩ := r
  cases focus with
  | operand => simp [step, beginOperand_of_eof ht, refuse]
  | argument =>
    simp only [step, beginArgument, beginOperand_of_eof ht, ht]
    split
    all_goals simp [refuse]
  | component base => simp [step, refuse, ht]
  | complete e =>
    rw [step_complete, afterPhrase_eq, if_pos]
    · apply finish_ne_shift_of_eof ht
    · rw [ht]
      apply Power.lowest_le

/-- Where a sequence ends with its end marker, a reading that gives a phrase has spelled it by
the tokens before the one it ends at. -/
theorem Reached.run {rest : List Token} {next : Cursor} (h : Reached limit ts r)
    (hend : ∀ u, (t :: rest).getLast? = some u → u.kind = .eof)
    (hrun : r.run limit t rest = (.ok e, next)) :
  ∃ us, ts ++ t :: rest = us ++ next.tokens ∧ e.Spelled us ∧ e.Graded ∧ e.Exceeds limit
  := by
  -- Each token that is taken in moves from `rest` to `ts`, so both the reading and `ts` vary.
  induction rest generalizing r t ts with
  | nil =>
    rw [Reading.run] at hrun
    split at hrun
    · next hstep =>
      obtain ⟨hok, rfl⟩ := Prod.mk.inj hrun
      obtain rfl := Except.ok.inj hok
      exact ⟨ts, rfl, h.stop hstep⟩
    · cases hrun
    · next hstep => cases step_ne_shift_of_eof (hend t rfl) hstep
  | cons u rest ih =>
    rw [Reading.run] at hrun
    split at hrun
    · next hstep =>
      obtain ⟨hok, rfl⟩ := Prod.mk.inj hrun
      obtain rfl := Except.ok.inj hok
      exact ⟨ts, rfl, h.stop hstep⟩
    · cases hrun
    · next hstep =>
      obtain ⟨us, hus, hspelled⟩ := ih (h.step hstep) hend hrun
      exact ⟨us, by simpa using hus, hspelled⟩

end FortranScope.Reading

namespace FortranScope.Phrase

variable {e : Phrase} {ts : List Token} {eof : Token}

/-- The tokens before the only end marker of a sequence. -/
theorem eq_of_append_eof {t u : Token} {us rest : List Token} (hts : ∀ t ∈ ts, t.kind ≠ .eof)
    (h : ts ++ [t] = us ++ u :: rest) (hu : u.kind = .eof) :
  ts = us
  := by
  rcases List.append_eq_append_iff.mp h with ⟨vs, rfl, hvs⟩ | ⟨vs, rfl, hvs⟩
  · cases vs with
    | nil => rw [List.append_nil]
    | cons v vs => simp at hvs
  · cases vs with
    | nil => rw [List.append_nil]
    | cons v vs =>
      obtain ⟨rfl, -⟩ := List.cons.inj hvs
      cases hts u (by simp) hu

theorem ofTokens_cons (t : Token) (rest : List Token) :
  ofTokens (t :: rest) = parse ⟨t, rest⟩
  := rfl

/-- A phrase that is read from a sequence with its end marker is spelled by the tokens before
the marker, and it is graded. -/
theorem spelled_of_ofTokens (hts : ∀ t ∈ ts, t.kind ≠ .eof) (heof : eof.kind = .eof)
    (h : ofTokens (ts ++ [eof]) = .ok e) :
  e.Spelled ts ∧ e.Graded
  := by
  obtain ⟨t, rest, hcons⟩ := List.exists_cons_of_ne_nil (List.concat_ne_nil eof ts)
  rw [hcons, ofTokens_cons, parse] at h
  split at h
  · cases h
  · next e' next hread =>
    split at h
    · next hnext =>
      obtain rfl := Except.ok.inj h
      obtain ⟨us, hus, hspelled, hgraded, -⟩ :=
        (Reading.reached_start .lowest).run (by simp [← hcons, heof]) hread
      rw [List.nil_append, ← hcons, Cursor.tokens] at hus
      rw [eq_of_append_eof hts hus hnext]
      exact ⟨hspelled, hgraded⟩
    · cases h

end FortranScope.Phrase
