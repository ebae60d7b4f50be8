import FortranScope.Proofs.Phrase.Soundness

/-!
# Graded phrases are read back

A reading takes in all tokens of a graded phrase: `Phrase.Spelled.taken`.  The operators that
are open at the end of the phrase are then still open, so what is said about the reading is
what any following token that the phrase yields to makes of it.  Together with soundness this
determines reading: `Phrase.ofTokens_eq_ok_iff`.
-/

namespace FortranScope.Reading

variable {limit power : Power} {frames outer : List Frame} {e : Phrase}
  {ts us : List Token} {t : Token} {r r' : Reading}

/-! ## Several tokens -/

/-- All of the tokens are taken in, and `r` becomes `r'`. -/
def Takes (limit : Power) : Reading → List Token → Reading → Prop
  | r, [], r' => r = r'
  | r, t :: ts, r' => ∃ next, r.step limit t = .shift next ∧ Takes limit next ts r'

/-- Tokens are taken in one list after the other. -/
theorem Takes.append {r'' : Reading} (h : Takes limit r ts r') (h' : Takes limit r' us r'') :
  Takes limit r (ts ++ us) r''
  := by
  induction ts generalizing r with
  | nil =>
    obtain rfl := h
    apply h'
  | cons t ts ih =>
    obtain ⟨next, hstep, hnext⟩ := h
    use next, hstep, ih hnext

theorem takes_singleton (h : r.step limit t = .shift r') :
  Takes limit r [t] r'
  := ⟨r', h, rfl⟩

/-- A reading goes on from where it has taken tokens in. -/
theorem run_of_takes {u : Token} {rest : List Token} (h : Takes limit r ts r')
    (hcons : ts ++ u :: rest = t :: us) :
  r.run limit t us = r'.run limit u rest
  := by
  induction ts generalizing r t us with
  | nil =>
    obtain ⟨rfl, rfl⟩ := List.cons.inj hcons
    rw [show r = r' from h]
  | cons v vs ih =>
    rw [List.cons_append] at hcons
    obtain ⟨rfl, rfl⟩ := List.cons.inj hcons
    obtain ⟨next, hstep, hnext⟩ := h
    obtain ⟨w, ws, hw⟩ := List.exists_cons_of_ne_nil
      (show vs ++ u :: rest ≠ [] by simp)
    rw [hw, Reading.run, hstep]
    apply ih hnext hw

/-! ## The beginning of an operand -/

/-- An operand may come next. -/
def Expectant (r : Reading) : Prop := r.focus = .operand ∨ r.focus = .argument

/-- Where an operand may come next it begins, unless the token closes an empty list of arguments. -/
theorem Expectant.step (h : r.Expectant) (ht : t.kind ≠ .closeParen) :
  r.step limit t = beginOperand r.frames t
  := by
  obtain ⟨frames, focus⟩ := r
  rcases h with hfocus | hfocus
  · obtain rfl : focus = .operand := hfocus
    rfl
  · obtain rfl : focus = .argument := hfocus
    change beginArgument frames t = beginOperand frames t
    unfold beginArgument
    split
    · rw [if_neg ht]
    · rfl

/-- A literal is a whole operand. -/
theorem Expectant.literal (h : r.Expectant) (ht : Phrase.literal? t = some (some e)) :
  r.step limit t = .shift ⟨r.frames, .complete e⟩
  := by
  rw [h.step, beginOperand, ht]
  intro hkind
  simp [Phrase.literal?, hkind] at ht

/-- An opening parenthesis begins a group, in which an operand comes next. -/
theorem Expectant.openParen (h : r.Expectant) (ht : t.kind = .openParen) :
  r.step limit t = .shift ⟨.group t.span :: r.frames, .operand⟩
  := by
  rw [h.step (by simp [ht])]
  simp [beginOperand, Phrase.literal?, ht]

/-- A prefix operator waits for its operand. -/
theorem Expectant.prefixOperator {operator : PrefixOperator} (h : r.Expectant)
    (ht : PrefixOperator.ofToken? t = some operator) :
  r.step limit t = .shift ⟨.prefixed operator t.span :: r.frames, .operand⟩
  := by
  have hkind := PrefixOperator.kind_of_ofToken? ht
  rw [h.step, beginOperand, ht]
  · rcases hkind with hkind | hkind | hkind | hkind
    all_goals simp [Phrase.literal?, hkind]
  · rcases hkind with hkind | hkind | hkind | hkind
    all_goals simp [hkind]

/-! ## After a phrase -/

/-- `r` is what the constructs `frames` and the phrase `e` amount to, with the operators open at
the right end of `e` not completed. -/
def Ends (frames : List Frame) (e : Phrase) (r : Reading) : Prop :=
  ∃ frames' e', r = ⟨frames', .complete e'⟩
    ∧ ∀ power, e.YieldsTo power → reduce power frames' e' = reduce power frames e

theorem ends_complete :
  Ends frames e ⟨frames, .complete e⟩
  := ⟨frames, e, rfl, fun _ _ => rfl⟩

/-- A token that takes the phrase before it as its operand. -/
theorem Ends.extend (h : Ends frames e r) (hyields : e.YieldsTo t.kind.leftPower)
    (hbound : bound limit frames < t.kind.leftPower) :
  r.step limit t = extend frames e t
  := by
  obtain ⟨frames', e', rfl, hreduce⟩ := h
  rw [step_complete, afterPhrase_eq, hreduce _ hyields,
    reduce_of_settled (settled_of_bound_lt hbound), if_neg (Power.not_le.mpr hbound)]

/-- A token that is no operator after a phrase inside a construct that is no operator. -/
theorem Ends.finish (h : Ends frames e r) (ht : t.kind.leftPower = .lowest)
    (hsettled : Settled .lowest frames) :
  r.step limit t = finish frames e t
  := by
  obtain ⟨frames', e', rfl, hreduce⟩ := h
  have hyields : e.YieldsTo .lowest := fun q _ => Power.lowest_le q
  rw [step_complete, afterPhrase_eq, ht, hreduce _ hyields, reduce_of_settled hsettled,
    if_pos (Power.lowest_le _)]

/-- An operator before its operand is completed by whatever its operand yields to and it
yields to itself. -/
theorem Ends.unary {operator : PrefixOperator} {span : Span}
    (h : Ends (.prefixed operator span :: frames) e r) :
  Ends frames (.unary operator e (span.through e.span)) r
  := by
  obtain ⟨frames', e', rfl, hreduce⟩ := h
  use frames', e', rfl
  intro power hyields
  obtain ⟨hoperator, hoperand⟩ := Phrase.yieldsTo_unary.mp hyields
  rw [hreduce power hoperand, reduce, if_pos hoperator]

/-- An operator between its operands is completed by whatever its right operand yields to and
it yields to itself. -/
theorem Ends.binary {operator : InfixOperator} {left : Phrase}
    (h : Ends (.infixed operator left :: frames) e r) :
  Ends frames (.binary operator left e) r
  := by
  obtain ⟨frames', e', rfl, hreduce⟩ := h
  use frames', e', rfl
  intro power hyields
  obtain ⟨hoperator, hright⟩ := Phrase.yieldsTo_binary.mp hyields
  rw [hreduce power hright, reduce, if_pos hoperator]

/-! ## Constructs -/

/-- An infix operator waits for its right operand. -/
theorem extend_of_infixOperator {operator : InfixOperator}
    (ht : InfixOperator.ofToken? t = some operator) :
  extend frames e t = .shift ⟨.infixed operator e :: frames, .operand⟩
  := by
  unfold extend
  rw [if_neg, if_neg, ht]
  · intro hkind
    simp [InfixOperator.ofToken?, BinaryOperator.ofTokenKind?, hkind] at ht
  · intro hkind
    simp [InfixOperator.ofToken?, BinaryOperator.ofTokenKind?, hkind] at ht

/-- A percent sign waits for the name of a component. -/
theorem extend_of_percent (ht : t.kind = .percent) :
  extend frames e t = .shift ⟨frames, .component e⟩
  := by
  simp [extend, ht]

/-- An opening parenthesis after a name begins the arguments of a reference. -/
theorem extend_designator (callee : Name) (ht : t.kind = .openParen) :
  extend frames (.designator callee) t
    = .shift ⟨.reference callee [] none :: frames, .argument⟩
  := by
  rw [extend, if_pos ht]

/-- A keyword before an argument. -/
theorem takes_keyword {keyword : Option Name} {ks : List Token} (callee : Name)
    (args : List (Option Name × Phrase)) (h : Phrase.KeywordSpelled keyword ks) :
  ∃ r, Takes limit ⟨.reference callee args none :: frames, .argument⟩ ks r ∧ r.Expectant
    ∧ r.frames = .reference callee args keyword :: frames
  := by
  cases keyword with
  | none =>
    obtain rfl : ks = [] := h
    exact ⟨_, rfl, Or.inr rfl, rfl⟩
  | some keyword =>
    obtain ⟨word, sign, rfl, hword, hsign, rfl⟩ := h
    have hsettled : Settled .lowest (.reference callee args none :: frames) := trivial
    have hlowest : sign.kind.leftPower = .lowest := by
      rw [hsign]
      rfl
    refine ⟨⟨.reference callee args (some _) :: frames, .operand⟩, ?_, Or.inl rfl, rfl⟩
    refine ⟨⟨_, _⟩, Expectant.literal (Or.inr rfl) (Phrase.literal?_of_identifier hword), ?_⟩
    apply takes_singleton
    rw [ends_complete.finish hlowest hsettled]
    simp [finish, endArgument, hsign]

/-- An argument with its keyword, where `us` are the tokens of its value. -/
theorem takes_argument {keyword : Option Name} {value : Phrase} {ks : List Token}
    (frames : List Frame) (callee : Name) (args : List (Option Name × Phrase))
    (hks : Phrase.KeywordSpelled keyword ks)
    (hvalue : ∀ r : Reading, r.Expectant → r.frames = .reference callee args keyword :: frames →
      ∃ r', Takes limit r us r' ∧ Ends r.frames value r') :
  ∃ r, Takes limit ⟨.reference callee args none :: frames, .argument⟩ (ks ++ us) r
    ∧ Ends (.reference callee args keyword :: frames) value r
  := by
  obtain ⟨r, htakes, hexpectant, hframes⟩ := takes_keyword callee args hks
  obtain ⟨r', htakes', hends⟩ := hvalue r hexpectant hframes
  rw [hframes] at hends
  exact ⟨r', htakes.append htakes', hends⟩

/-- The token that closes a reference after its last argument. -/
theorem Ends.closeArgument {callee : Name} {args : List (Option Name × Phrase)}
    {keyword : Option Name} (h : Ends (.reference callee args keyword :: frames) e r)
    (ht : t.kind = .closeParen) :
  r.step limit t
    = .shift ⟨frames, .complete (closeReference callee (args ++ [(keyword, e)]) t)⟩
  := by
  rw [h.finish (by rw [ht]; rfl) trivial]
  simp [Reading.finish, endArgument, ht]

/-- The comma after an argument. -/
theorem Ends.comma {callee : Name} {args : List (Option Name × Phrase)}
    {keyword : Option Name} (h : Ends (.reference callee args keyword :: frames) e r)
    (ht : t.kind = .comma) :
  r.step limit t = .shift ⟨.reference callee (args ++ [(keyword, e)]) none :: frames, .argument⟩
  := by
  rw [h.finish (by rw [ht]; rfl) trivial]
  simp [Reading.finish, endArgument, ht]

/-- The token that closes a parenthesis. -/
theorem Ends.closeGroup {opening : Span} (h : Ends (.group opening :: frames) e r)
    (ht : t.kind = .closeParen) :
  r.step limit t = .shift ⟨frames, .complete (.parentheses e (opening.through t.span))⟩
  := by
  rw [h.finish (by rw [ht]; rfl) trivial]
  simp [Reading.finish, endGroup, ht]

/-- The token that closes a reference where an argument may come next. -/
theorem step_closeReference {callee : Name} {args : List (Option Name × Phrase)}
    (ht : t.kind = .closeParen) :
  step limit ⟨.reference callee args none :: frames, .argument⟩ t
    = .shift ⟨frames, .complete (closeReference callee args t)⟩
  := by
  simp [step, beginArgument, ht]

end FortranScope.Reading

namespace FortranScope.Phrase

open Reading

variable {limit : Power} {e : Phrase} {ts : List Token} {eof : Token}

@[simp]
theorem ArgList.ofList_toList (args : ArgList) :
  ofList args.toList = args
  := by
  match args with
  | .nil => rfl
  | .cons _ _ rest => rw [toList, ofList, rest.ofList_toList]

mutual

/-- Where an operand may come next, all tokens of a graded phrase are taken in that exceeds the
bound of what is open. -/
theorem Spelled.taken (hlimit : limit < .suffix) (e : Phrase) {ts : List Token}
    (h : e.Spelled ts) (hgraded : e.Graded) (r : Reading) (hr : r.Expectant)
    (hexceeds : e.Exceeds (bound limit r.frames)) :
  ∃ r', Takes limit r ts r' ∧ Ends r.frames e r'
  := by
  -- Operands are taken in below the frames of their operators, so `r` is any reading.  What is
  -- left open after `e` is said by `Ends`, as the token that completes it is not yet known.
  match e, h with
  | .integer _ _ _, ⟨t, hts, ht⟩ | .real _ _ _, ⟨t, hts, ht⟩ | .character _ _, ⟨t, hts, ht⟩
  | .logical _ _, ⟨t, hts, ht⟩ | .designator _, ⟨t, hts, ht⟩ =>
    subst hts
    exact ⟨_, takes_singleton (hr.literal ht), ends_complete⟩
  | .component base name, ⟨us, percent, word, hts, hbase, hpercent, hword, hname⟩ =>
    subst hts hname
    have hbound : bound limit r.frames < .suffix := bound_lt_suffix hlimit
    obtain ⟨r', htakes, hends⟩ :=
      hbase.taken hlimit base hgraded.1 r hr (hgraded.2.exceeds hbound)
    have hstep : r'.step limit percent = .shift ⟨r.frames, .component base⟩ := by
      rw [hends.extend (by rw [hpercent]; apply hgraded.2) (by rw [hpercent]; apply hbound),
        extend_of_percent hpercent]
    exact ⟨_, htakes.append ⟨_, hstep, takes_singleton (if_pos hword)⟩, ends_complete⟩
  | .reference callee args span, ⟨word, opening, us, closing, hts, hword, hcallee, hopening,
      hargs, hclosing, hspan⟩ =>
    subst hts hcallee hspan
    -- The callee is read as a designator first, which the opening parenthesis takes back.
    have hbound : bound limit r.frames < .suffix := bound_lt_suffix hlimit
    have htakes := hargs.taken hlimit args hgraded (Name.ofSpelling word.value word.span) []
      r.frames hclosing
    rw [List.nil_append, closeReference, ArgList.ofList_toList] at htakes
    have hyields : (designator (Name.ofSpelling word.value word.span)).YieldsTo
        opening.kind.leftPower :=
      yieldsTo_of_rightEdge_eq_nil rfl _
    have hstep := ends_complete.extend hyields (by rw [hopening]; apply hbound)
    rw [extend_designator _ hopening] at hstep
    exact ⟨_, ⟨_, hr.literal (literal?_of_identifier hword), _, hstep, htakes⟩, ends_complete⟩
  | .parentheses inner span, ⟨opening, us, closing, hts, hopening, hinner, hclosing, hspan⟩ =>
    subst hts hspan
    obtain ⟨r', htakes, hends⟩ := hinner.taken hlimit inner hgraded
      ⟨.group opening.span :: r.frames, .operand⟩ (Or.inl rfl) (exceeds_lowest inner)
    exact ⟨_, ⟨_, hr.openParen hopening,
      htakes.append (takes_singleton (hends.closeGroup hclosing))⟩, ends_complete⟩
  | .unary operator operand span, ⟨t, us, hts, ht, hoperand, hspan⟩ =>
    subst hts hspan
    obtain ⟨r', htakes, hends⟩ := hoperand.taken hlimit operand hgraded.1
      ⟨.prefixed operator t.span :: r.frames, .operand⟩ (Or.inl rfl) hgraded.2
    exact ⟨r', ⟨_, hr.prefixOperator ht, htakes⟩, hends.unary⟩
  | .binary operator left right, ⟨us, t, vs, hts, hleft, ht, hright⟩ =>
    subst hts
    obtain ⟨hgradedLeft, hyields, hgradedRight, hexceedsRight⟩ := hgraded
    obtain ⟨r₁, htakes₁, hends₁⟩ :=
      hleft.taken hlimit left hgradedLeft r hr (hyields.exceeds hexceeds)
    obtain ⟨r₂, htakes₂, hends₂⟩ := hright.taken hlimit right hgradedRight
      ⟨.infixed operator left :: r.frames, .operand⟩ (Or.inl rfl) hexceedsRight
    have hpower := InfixOperator.leftPower_of_ofToken? ht
    have hstep : r₁.step limit t = .shift ⟨.infixed operator left :: r.frames, .operand⟩ := by
      rw [hends₁.extend (by rw [hpower]; apply hyields) (by rw [hpower]; apply hexceeds),
        extend_of_infixOperator ht]
    exact ⟨r₂, htakes₁.append ⟨_, hstep, htakes₂⟩, hends₂.binary⟩

/-- Where an argument may come next, all tokens of an argument list are taken in up to the one
that closes it. -/
theorem ArgList.Spelled.taken (hlimit : limit < .suffix) (args : ArgList) {ts : List Token}
    (h : args.Spelled ts) (hgraded : args.Graded) (callee : Name)
    (before : List (Option Name × Phrase)) (frames : List Frame) {closing : Token}
    (hclosing : closing.kind = .closeParen) :
  Takes limit ⟨.reference callee before none :: frames, .argument⟩ (ts ++ [closing])
    ⟨frames, .complete (closeReference callee (before ++ args.toList) closing)⟩
  := by
  match args, h with
  | .nil, h =>
    obtain rfl : ts = [] := h
    rw [ArgList.toList, List.append_nil]
    apply takes_singleton (step_closeReference hclosing)
  | .cons keyword value rest, ⟨ks, us, vs, hts, hks, hus, hrest⟩ =>
    subst hts
    obtain ⟨r, htakes, hends⟩ := takes_argument frames callee before hks
      fun r hr hframes => hus.taken hlimit value hgraded.1 r hr
        (by rw [hframes]; apply exceeds_lowest)
    rcases hrest with ⟨hrest, hvs⟩ | ⟨comma, ws, hvs, hcomma, hws⟩
    · subst hrest hvs
      rw [List.append_nil]
      apply htakes.append (takes_singleton (hends.closeArgument hclosing))
    · subst hvs
      have htakes' := hws.taken hlimit rest hgraded.2 callee (before ++ [(keyword, value)]) frames
        hclosing
      have hall := htakes.append ((takes_singleton (hends.comma hcomma)).append htakes')
      simpa [ArgList.toList] using hall

end

/-- Graded phrases are read from the tokens that spell them. -/
theorem ofTokens_of_spelled (hspelled : e.Spelled ts) (hgraded : e.Graded)
    (heof : eof.kind = .eof) :
  ofTokens (ts ++ [eof]) = .ok e
  := by
  have hlimit : Power.lowest < .suffix := by decide
  obtain ⟨r, htakes, hends⟩ :=
    hspelled.taken hlimit e hgraded start (Or.inl rfl) (exceeds_lowest e)
  obtain ⟨t, us, hcons⟩ := List.exists_cons_of_ne_nil (List.concat_ne_nil eof ts)
  have hstop : r.step .lowest eof = .stop e := by
    rw [hends.finish (by rw [heof]; rfl) trivial]
    rfl
  rw [hcons, ofTokens_cons, parse, Cursor.readPhrase, run_of_takes htakes hcons, Reading.run,
    hstop]
  simp [heof]

/-- Reading a sequence gives a phrase exactly if the tokens before its end marker spell that
phrase and it is graded. -/
theorem ofTokens_eq_ok_iff (hts : ∀ t ∈ ts, t.kind ≠ .eof) (heof : eof.kind = .eof) :
  ofTokens (ts ++ [eof]) = .ok e ↔ e.Spelled ts ∧ e.Graded
  := by
  constructor
  · apply spelled_of_ofTokens hts heof
  · rintro ⟨hspelled, hgraded⟩
    apply ofTokens_of_spelled hspelled hgraded heof

end FortranScope.Phrase
