import FortranScope.Proofs.Phrase.Spans

/-!
# Commas between arguments

Every comma of a phrase ends an argument of some reference.  After it comes the next argument, or,
as one more comma may stand after the last argument, the parenthesis that closes the reference.
The number of commas is therefore what the arguments of all references need, and one more for each
comma directly before a closing parenthesis.
-/

namespace FortranScope.Phrase

variable {e p : Phrase} {ts us vs before after : List Token} {comma : Token}

/-! ## Numbers of commas -/

mutual

/-- The sum of the numbers of arguments less one, over the references with arguments. -/
def separators : Phrase → Nat
  | component base _ => base.separators
  | reference _ args _ => args.toList.length - 1 + args.separators
  | parentheses inner _ => inner.separators
  | unary _ operand _ => operand.separators
  | binary _ left right => left.separators + right.separators
  | _ => 0

/-- The sum over the references in the values. -/
def ArgList.separators : ArgList → Nat
  | .nil => 0
  | .cons _ value rest => value.separators + rest.separators

end

/-- The number of commas. -/
def commas (ts : List Token) : Nat := ts.countP fun t => t.kind = .comma

/-- The number of commas that a closing parenthesis follows directly. -/
def danglingCommas : List Token → Nat
  | [] => 0
  | [_] => 0
  | t :: u :: rest =>
    (if t.kind = .comma ∧ u.kind = .closeParen then 1 else 0) + danglingCommas (u :: rest)

/-- No comma dangles across the place between the two, as the first list ends with no comma, or the
second one begins with no closing parenthesis. -/
theorem danglingCommas_append (h : (∀ t ∈ ts.getLast?, t.kind ≠ .comma)
    ∨ ∀ t ∈ us.head?, t.kind ≠ .closeParen) :
  danglingCommas (ts ++ us) = danglingCommas ts + danglingCommas us
  := by
  induction ts with
  | nil => simp [danglingCommas]
  | cons t ts ih =>
    cases ts with
    | nil =>
      cases us with
      | nil => rfl
      | cons u us =>
        rw [List.singleton_append, danglingCommas, danglingCommas, if_neg]
        rintro ⟨ht, hu⟩
        rcases h with h | h
        · exact h t rfl ht
        · exact h u rfl hu
    | cons t' ts =>
      rw [List.cons_append, List.cons_append, danglingCommas, danglingCommas, ← List.cons_append,
        ih, Nat.add_assoc]
      rw [List.getLast?_cons_cons] at h
      exact h

/-- All of the commas but `n` dangle. -/
def Separated (n : Nat) (ts : List Token) : Prop := commas ts = n + danglingCommas ts

/-- Commas that do not dangle add up, unless one list ends with a comma that the next one makes
dangle. -/
theorem Separated.append {m n : Nat} (h : Separated m ts) (h' : Separated n us)
    (hjoint : (∀ t ∈ ts.getLast?, t.kind ≠ .comma) ∨ ∀ t ∈ us.head?, t.kind ≠ .closeParen) :
  Separated (m + n) (ts ++ us)
  := by
  rw [Separated] at h h'
  rw [Separated, danglingCommas_append hjoint, commas, List.countP_append, ← commas, ← commas, h, h']
  omega

/-- A single token that is no comma separates nothing. -/
theorem separated_singleton {t : Token} (ht : t.kind ≠ .comma) :
  Separated 0 [t]
  := by
  rw [Separated, commas, List.countP_singleton, if_neg]
  · rfl
  · simpa using ht

/-- A single comma does not dangle. -/
theorem separated_comma {t : Token} (ht : t.kind = .comma) :
  Separated 1 [t]
  := by
  rw [Separated, commas, List.countP_singleton, if_pos]
  · rfl
  · simpa using ht

/-- Two tokens without commas. -/
theorem separated_pair {t u : Token} (ht : t.kind ≠ .comma) (hu : u.kind ≠ .comma) :
  Separated 0 [t, u]
  := (separated_singleton ht).append (separated_singleton hu) (.inl (by simpa using ht))

/-! ## Where phrases begin and end -/

/-- The tokens begin with no closing parenthesis, and end with no comma and no opening one. -/
structure Enclosed (ts : List Token) : Prop where
  first : ∃ t, ts.head? = some t ∧ t.kind ≠ .closeParen
  last : ∃ t, ts.getLast? = some t ∧ t.kind ≠ .comma ∧ t.kind ≠ .openParen

namespace Enclosed

/-- Enclosed tokens stay so one after the other. -/
theorem append (h : Enclosed ts) (h' : Enclosed us) :
  Enclosed (ts ++ us)
  := by
  obtain ⟨t, ht, hkind⟩ := h.first
  obtain ⟨u, hu, hkind'⟩ := h'.last
  constructor
  · use t
    rw [List.head?_append, ht, Option.some_or]
    exact ⟨rfl, hkind⟩
  · use u
    rw [List.getLast?_append, hu, Option.some_or]
    exact ⟨rfl, hkind'⟩

theorem singleton {t : Token} (hclosing : t.kind ≠ .closeParen) (hcomma : t.kind ≠ .comma)
    (hopening : t.kind ≠ .openParen) :
  Enclosed [t]
  := ⟨⟨t, rfl, hclosing⟩, ⟨t, rfl, hcomma, hopening⟩⟩

/-- Whether tokens are enclosed depends on the first and the last one. -/
theorem of_ends {t u : Token} (ht : t.kind ≠ .closeParen)
    (hu : u.kind ≠ .comma ∧ u.kind ≠ .openParen) (ts : List Token) :
  Enclosed (t :: (ts ++ [u]))
  := by
  constructor
  · use t, rfl
  · use u
    rw [← List.cons_append, List.getLast?_concat]
    exact ⟨rfl, hu⟩

/-- Enclosed tokens do not end with a comma. -/
theorem getLast (h : Enclosed ts) :
  ∀ t ∈ ts.getLast?, t.kind ≠ .comma
  := by
  obtain ⟨t, ht, hkind, -⟩ := h.last
  rintro u hu
  obtain rfl : t = u := Option.some.inj (ht.symm.trans hu)
  exact hkind

end Enclosed

/-- A literal is enclosed. -/
theorem enclosed_of_literal? {t : Token} (h : literal? t = some (some e)) :
  Enclosed [t]
  := by
  apply Enclosed.singleton
  all_goals
    rcases cases_of_literal? h with ⟨hkind, -⟩ | ⟨hkind, -⟩ | ⟨hkind, -⟩ | ⟨hkind, -⟩ | ⟨hkind, -⟩
    all_goals simp [hkind]

/-- A prefix operator is enclosed. -/
theorem enclosed_of_prefixOperator {t : Token} {operator : PrefixOperator}
    (h : PrefixOperator.ofToken? t = some operator) :
  Enclosed [t]
  := by
  apply Enclosed.singleton
  all_goals
    rcases PrefixOperator.kind_of_ofToken? h with hkind | hkind | hkind | hkind
    all_goals simp [hkind]

/-- An infix operator is enclosed. -/
theorem enclosed_of_infixOperator {t : Token} {operator : InfixOperator}
    (h : InfixOperator.ofToken? t = some operator) :
  Enclosed [t]
  := by
  apply Enclosed.singleton
  all_goals
    intro hkind
    simp [InfixOperator.ofToken?, hkind, BinaryOperator.ofTokenKind?] at h

/-- The tokens of a phrase are enclosed: no phrase ends with a comma. -/
theorem Spelled.enclosed (e : Phrase) {ts : List Token} (h : e.Spelled ts) :
  Enclosed ts
  := by
  cases e with
  | integer | real | character | logical | designator =>
    obtain ⟨t, rfl, ht⟩ := h
    apply enclosed_of_literal? ht
  | component base name =>
    obtain ⟨us, percent, word, rfl, hus, hpercent, hword, -⟩ := h
    apply (hus.enclosed base).append
    exact Enclosed.of_ends (by simp [hpercent]) (by simp [hword]) []
  | reference callee args span =>
    obtain ⟨word, opening, us, closing, rfl, hword, -, -, -, hclosing, -⟩ := h
    exact Enclosed.of_ends (by simp [hword]) (by simp [hclosing]) (opening :: us)
  | parentheses inner span =>
    obtain ⟨opening, us, closing, rfl, hopening, -, hclosing, -⟩ := h
    exact Enclosed.of_ends (by simp [hopening]) (by simp [hclosing]) us
  | unary operator operand span =>
    obtain ⟨t, us, rfl, ht, hus, -⟩ := h
    exact (enclosed_of_prefixOperator ht).append (hus.enclosed operand)
  | binary operator left right =>
    obtain ⟨us, t, vs, rfl, hus, ht, hvs⟩ := h
    exact (hus.enclosed left).append ((enclosed_of_infixOperator ht).append (hvs.enclosed right))

/-- The tokens `ts` spell the argument and the keyword before it, if there is one. -/
def ArgSpelled (arg : Option Name × Phrase) (ts : List Token) : Prop :=
  ∃ ks us, ts = ks ++ us ∧ KeywordSpelled arg.1 ks ∧ arg.2.Spelled us

/-- The tokens of an argument are enclosed. -/
theorem ArgSpelled.enclosed {arg : Option Name × Phrase} (h : ArgSpelled arg ts) :
  Enclosed ts
  := by
  obtain ⟨ks, us, rfl, hks, hus⟩ := h
  obtain ⟨keyword, value⟩ := arg
  have hvalue := Spelled.enclosed value hus
  cases keyword with
  | none =>
    obtain rfl : ks = [] := hks
    exact hvalue
  | some keyword =>
    obtain ⟨word, sign, rfl, hword, hsign, -⟩ := hks
    apply Enclosed.append _ hvalue
    exact Enclosed.of_ends (by simp [hword]) (by simp [hsign]) []

/-- Arguments begin with the first one of them. -/
theorem ArgList.Spelled.first {keyword : Option Name} {value : Phrase} {rest : ArgList}
    (h : (ArgList.cons keyword value rest).Spelled ts) :
  ∃ us, us <+: ts ∧ ArgSpelled (keyword, value) us
  := by
  obtain ⟨ks, us, vs, rfl, hks, hus, -⟩ := h
  use ks ++ us
  rw [← List.append_assoc]
  exact ⟨List.prefix_append _ _, ks, us, rfl, hks, hus⟩

/-! ## The count -/

/-- There is no comma in a keyword. -/
theorem KeywordSpelled.separated {keyword : Option Name} {ks : List Token}
    (h : KeywordSpelled keyword ks) :
  Separated 0 ks ∧ ∀ t ∈ ks, t.kind ≠ .comma
  := by
  cases keyword with
  | none =>
    obtain rfl : ks = [] := h
    exact ⟨rfl, by simp⟩
  | some keyword =>
    obtain ⟨word, sign, rfl, hword, hsign, -⟩ := h
    exact ⟨separated_pair (by simp [hword]) (by simp [hsign]), by simp [hword, hsign]⟩

mutual

/-- The commas are those that arguments need, and those that dangle. -/
theorem Spelled.separated (e : Phrase) {ts : List Token} (h : e.Spelled ts) :
  Separated e.separators ts
  := by
  cases e with
  | integer | real | character | logical | designator =>
    obtain ⟨t, rfl, ht⟩ := h
    apply separated_singleton ((enclosed_of_literal? ht).getLast t rfl)
  | component base name =>
    obtain ⟨us, percent, word, rfl, hus, hpercent, hword, -⟩ := h
    have hbase := Spelled.separated base hus
    have hback : Separated 0 [percent, word] :=
      separated_pair (by simp [hpercent]) (by simp [hword])
    exact hbase.append hback (.inl (hus.enclosed base).getLast)
  | reference callee args span =>
    obtain ⟨word, opening, us, closing, rfl, hword, -, hopening, hus, hclosing, -⟩ := h
    have hargs := ArgList.Spelled.separated args hus hclosing
    have hfront : Separated 0 [word, opening] :=
      separated_pair (by simp [hword]) (by simp [hopening])
    have hall := hfront.append hargs (.inl (by simp [hopening]))
    rw [Nat.zero_add] at hall
    exact hall
  | parentheses inner span =>
    obtain ⟨opening, us, closing, rfl, hopening, hus, hclosing, -⟩ := h
    have hinner := Spelled.separated inner hus
    have hfront : Separated 0 [opening] := separated_singleton (by simp [hopening])
    have hback : Separated 0 [closing] := separated_singleton (by simp [hclosing])
    have hall := hfront.append (hinner.append hback (.inl (hus.enclosed inner).getLast))
      (.inl (by simp [hopening]))
    rw [Nat.zero_add] at hall
    exact hall
  | unary operator operand span =>
    obtain ⟨t, us, rfl, ht, hus, -⟩ := h
    have hoperand := Spelled.separated operand hus
    have ht := (enclosed_of_prefixOperator ht).getLast
    have hall := (separated_singleton (ht t rfl)).append hoperand (.inl ht)
    rw [Nat.zero_add] at hall
    exact hall
  | binary operator left right =>
    obtain ⟨us, t, vs, rfl, hus, ht, hvs⟩ := h
    have hleft := Spelled.separated left hus
    have hright := Spelled.separated right hvs
    have ht := (enclosed_of_infixOperator ht).getLast
    have hback := (separated_singleton (ht t rfl)).append hright (.inl ht)
    rw [Nat.zero_add] at hback
    exact hleft.append hback (.inl (hus.enclosed left).getLast)

/-- In the tokens of arguments all commas but one for each further argument dangle. -/
theorem ArgList.Spelled.separated (args : ArgList) {ts : List Token} (h : args.Spelled ts)
    {closing : Token} (hclosing : closing.kind = .closeParen) :
  Separated (args.toList.length - 1 + args.separators) (ts ++ [closing])
  := by
  have hback : Separated 0 [closing] := separated_singleton (by simp [hclosing])
  cases args with
  | nil =>
    obtain rfl : ts = [] := h
    exact hback
  | cons keyword value rest =>
    obtain ⟨ks, us, vs, rfl, hks, hus, hrest⟩ := h
    have hvalue := Spelled.separated value hus
    -- what comes after the value has a comma for each further argument
    have hafter : Separated (rest.toList.length + rest.separators) (vs ++ [closing]) := by
      rcases hrest with ⟨rfl, rfl⟩ | ⟨comma, ws, rfl, hcomma, hws⟩
      · exact hback
      · have hrest := ArgList.Spelled.separated rest hws hclosing
        cases rest with
        | nil =>
          obtain rfl : ws = [] := hws
          simp [Separated, commas, danglingCommas, ArgList.toList, ArgList.separators, hcomma,
            hclosing]
        | cons keyword' value' rest' =>
          obtain ⟨first, ⟨ys, rfl⟩, hfirst⟩ := hws.first
          have hall := (separated_comma hcomma).append hrest (.inr ?_)
          · simp only [ArgList.toList, List.length_cons, Nat.add_sub_cancel] at hall ⊢
            rw [← Nat.add_assoc, Nat.add_comm 1] at hall
            exact hall
          · obtain ⟨t, ht, hkind⟩ := hfirst.enclosed.first
            simp [List.head?_append, ht, hkind]
    have hall := hks.separated.1.append (hvalue.append hafter (.inl (hus.enclosed value).getLast))
      (.inl fun t ht => hks.separated.2 t (List.mem_of_getLast? ht))
    rw [Nat.zero_add, Nat.add_left_comm] at hall
    simp only [List.append_assoc]
    exact hall

end

/-! ## The places of commas -/

/-- A node of a part is a node of the whole. -/
theorem Node.of_part {q : Phrase} (hp : .inr p ∈ e.parts) (hq : p.Node q) :
  e.Node q
  := by
  induction hq with
  | root => exact .part .root hp
  | part _ hr ih => exact .part ih hr

theorem ArgList.mem_parts {args : ArgList} {arg : Option Name × Phrase} (h : arg ∈ args.toList) :
  .inr arg.2 ∈ args.parts
  := by
  induction args using ArgList.rec (motive_1 := fun _ => True) with
  | cons keyword value rest _ ih =>
    rw [parts]
    rcases List.mem_cons.mp h with rfl | hmem
    · simp
    · simp [ih hmem]
  | nil => contradiction
  | _ => trivial

/-- The tokens `before` end with the argument `arg` of a reference in `e`, after which `rest` are
left. -/
def EndsArgument (e : Phrase) (before : List Token) (arg : Option Name × Phrase)
    (rest : List (Option Name × Phrase)) : Prop :=
  ∃ callee args span earlier us, e.Node (.reference callee args span)
    ∧ args.toList = earlier ++ arg :: rest ∧ us <:+ before ∧ ArgSpelled arg us

/-- Between the tokens an argument of a reference in `e` ends, and the next one begins. -/
def Separates (e : Phrase) (before after : List Token) : Prop :=
  ∃ arg next rest us, e.EndsArgument before arg (next :: rest) ∧ us <+: after ∧ ArgSpelled next us

/-- Between the tokens the last argument of a reference in `e` ends, and the reference is closed. -/
def Trails (e : Phrase) (before after : List Token) : Prop :=
  ∃ arg closing, e.EndsArgument before arg [] ∧ [closing] <+: after ∧ closing.kind = .closeParen

section

variable {before' after' : List Token}

/-- What ends an argument in a part ends one in the whole. -/
theorem EndsArgument.of_part {arg : Option Name × Phrase} {rest : List (Option Name × Phrase)}
    (h : p.EndsArgument before' arg rest) (hp : .inr p ∈ e.parts) (hbefore : before' <:+ before) :
  e.EndsArgument before arg rest
  := by
  obtain ⟨callee, args, span, earlier, us, hnode, hargs, hus, hspelled⟩ := h
  exact ⟨callee, args, span, earlier, us, .of_part hp hnode, hargs, hus.trans hbefore, hspelled⟩

/-- What holds between the tokens of a part holds between those around it. -/
theorem comma_of_part (h : p.Separates before' after' ∨ p.Trails before' after')
    (hp : .inr p ∈ e.parts) (hbefore : before' <:+ before) (hafter : after' <+: after) :
  e.Separates before after ∨ e.Trails before after
  := by
  rcases h with ⟨arg, next, rest, us, hends, hus, hspelled⟩ | ⟨arg, closing, hends, hus, hkind⟩
  · left
    exact ⟨arg, next, rest, us, hends.of_part hp hbefore, hus.trans hafter, hspelled⟩
  · right
    exact ⟨arg, closing, hends.of_part hp hbefore, hus.trans hafter, hkind⟩

/-- A token of two lists is in one of them. -/
theorem split_append {t : Token} (h : ts ++ us = before ++ t :: after) :
  (∃ ws, ts = before ++ t :: ws ∧ after = ws ++ us)
    ∨ ∃ ws, before = ts ++ ws ∧ us = ws ++ t :: after
  := by
  rcases List.append_eq_append_iff.mp h with ⟨ws, hbefore, hus⟩ | ⟨ws, hts, hafter⟩
  · right
    use ws
  · cases ws with
    | nil =>
      right
      use []
      rw [List.append_nil] at hts
      rw [hts, List.append_nil]
      exact ⟨rfl, hafter.symm⟩
    | cons u ws =>
      obtain ⟨rfl, rfl⟩ := List.cons.inj hafter
      exact .inl ⟨ws, hts, rfl⟩

/-- A comma is in the second one of two lists if it is not in the first one. -/
theorem split_append_right (ts : List Token) (h : ts ++ us = before ++ comma :: after)
    (hcomma : comma.kind = .comma) (hts : ∀ t ∈ ts, t.kind ≠ .comma) :
  ∃ ws, before = ts ++ ws ∧ us = ws ++ comma :: after
  := by
  rcases split_append h with ⟨ws, rfl, -⟩ | hright
  · apply absurd hcomma
    apply hts
    simp
  · exact hright

/-- A comma of two lists, the second of which has none, is in the first. -/
theorem split_append_left (h : ts ++ us = before ++ comma :: after) (hcomma : comma.kind = .comma)
    (hus : ∀ t ∈ us, t.kind ≠ .comma) :
  ∃ ws, ts = before ++ comma :: ws ∧ after = ws ++ us
  := by
  rcases split_append h with hleft | ⟨ws, -, rfl⟩
  · exact hleft
  · apply absurd hcomma
    apply hus
    simp

end

mutual

/-- Every comma of a phrase ends an argument. -/
theorem Spelled.ends_argument (e : Phrase) {before after : List Token} {comma : Token}
    (h : e.Spelled (before ++ comma :: after)) (hcomma : comma.kind = .comma) :
  e.Separates before after ∨ e.Trails before after
  := by
  cases e with
  | integer | real | character | logical | designator =>
    obtain ⟨t, heq, ht⟩ := h
    obtain rfl : comma = t := List.mem_singleton.mp (heq ▸ by simp)
    exact absurd hcomma ((enclosed_of_literal? ht).getLast comma rfl)
  | component base name =>
    obtain ⟨us, percent, word, heq, hus, hpercent, hword, -⟩ := h
    -- neither the percent sign nor the name is a comma, so the comma is in the base
    obtain ⟨ws, rfl, rfl⟩ := split_append_left heq.symm hcomma (by simp [hpercent, hword])
    apply comma_of_part (Spelled.ends_argument base hus hcomma)
    · simp [parts]
    · apply List.suffix_rfl
    · apply List.prefix_append
  | reference callee args span =>
    obtain ⟨word, opening, us, closing, heq, hword, -, hopening, hus, hclosing, -⟩ := h
    obtain ⟨before', rfl, hback⟩ := split_append_right [word, opening] heq.symm hcomma
      (by simp [hword, hopening])
    obtain ⟨after', rfl, rfl⟩ := split_append_left hback hcomma (by simp [hclosing])
    -- between the parentheses the comma is inside a value or right after one
    rcases ArgList.Spelled.ends_argument args hus rfl hcomma with
      ⟨arg, harg, xs, ys, hxs, hys, hinside⟩ | ⟨earlier, arg, rest, xs, hargs, hxs, harg, hnext⟩
    · apply comma_of_part hinside
      · simp [parts, ArgList.mem_parts harg]
      · exact hxs.trans (List.suffix_append _ _)
      · exact hys.trans (List.prefix_append _ _)
    · have hends : (reference callee args span).EndsArgument ([word, opening] ++ before') arg rest :=
        ⟨callee, args, span, earlier, xs, .root, hargs, hxs.trans (List.suffix_append _ _), harg⟩
      cases rest with
      | nil =>
        obtain rfl : after' = [] := hnext
        right
        exact ⟨arg, closing, hends, List.prefix_rfl, hclosing⟩
      | cons next rest =>
        obtain ⟨ys, hys, hnext⟩ := hnext
        left
        exact ⟨arg, next, rest, ys, hends, hys.trans (List.prefix_append _ _), hnext⟩
  | parentheses inner span =>
    obtain ⟨opening, us, closing, heq, hopening, hus, hclosing, -⟩ := h
    obtain ⟨before', rfl, hback⟩ := split_append_right [opening] heq.symm hcomma
      (by simp [hopening])
    obtain ⟨after', rfl, rfl⟩ := split_append_left hback hcomma (by simp [hclosing])
    apply comma_of_part (Spelled.ends_argument inner hus hcomma)
    · simp [parts]
    · apply List.suffix_append
    · apply List.prefix_append
  | unary operator operand span =>
    obtain ⟨t, us, heq, ht, hus, -⟩ := h
    obtain ⟨before', rfl, rfl⟩ := split_append_right [t] heq.symm hcomma
      (by simpa using (enclosed_of_prefixOperator ht).getLast)
    apply comma_of_part (Spelled.ends_argument operand hus hcomma)
    · simp [parts]
    · apply List.suffix_append
    · apply List.prefix_rfl
  | binary operator left right =>
    obtain ⟨us, t, vs, heq, hus, ht, hvs⟩ := h
    -- no operator is a comma, so the comma is in one of the operands
    rcases split_append heq.symm with ⟨after', rfl, rfl⟩ | ⟨before', rfl, hback⟩
    · apply comma_of_part (Spelled.ends_argument left hus hcomma)
      · simp [parts]
      · apply List.suffix_rfl
      · apply List.prefix_append
    · obtain ⟨before'', rfl, rfl⟩ := split_append_right [t] hback hcomma
        (by simpa using (enclosed_of_infixOperator ht).getLast)
      apply comma_of_part (Spelled.ends_argument right hvs hcomma)
      · simp [parts]
      · exact (List.suffix_append _ _).trans (List.suffix_append _ _)
      · apply List.prefix_rfl

/-- A comma among arguments is inside one of them, or ends one. -/
theorem ArgList.Spelled.ends_argument (args : ArgList) {ts before after : List Token}
    {comma : Token} (h : args.Spelled ts) (heq : ts = before ++ comma :: after)
    (hcomma : comma.kind = .comma) :
  (∃ arg ∈ args.toList, ∃ before' after', before' <:+ before ∧ after' <+: after
      ∧ (arg.2.Separates before' after' ∨ arg.2.Trails before' after'))
    ∨ ∃ earlier arg rest us, args.toList = earlier ++ arg :: rest ∧ us <:+ before
      ∧ ArgSpelled arg us ∧ match rest with
        | [] => after = []
        | next :: _ => ∃ vs, vs <+: after ∧ ArgSpelled next vs
  := by
  cases args with
  | nil =>
    obtain rfl : ts = [] := h
    simp at heq
  | cons keyword value rest =>
    obtain ⟨ks, us, vs, rfl, hks, hus, hrest⟩ := h
    obtain ⟨ws, rfl, hws⟩ := split_append_right ks heq hcomma hks.separated.2
    rcases split_append hws with ⟨after', rfl, rfl⟩ | ⟨ws', rfl, hvs⟩
    · left
      exact ⟨(keyword, value), List.mem_cons_self, ws, after', List.suffix_append _ _,
        List.prefix_append _ _, Spelled.ends_argument value hus hcomma⟩
    · rcases hrest with ⟨-, rfl⟩ | ⟨comma', xs, rfl, -, hxs⟩
      · simp at hvs
      · cases ws' with
        | nil =>
          -- the comma is the one after this argument
          obtain ⟨rfl, rfl⟩ := List.cons.inj hvs
          right
          refine ⟨[], (keyword, value), rest.toList, ks ++ us, rfl, ?_, ⟨ks, us, rfl, hks, hus⟩, ?_⟩
          · exact ⟨[], by simp⟩
          · cases rest with
            | nil => exact hxs
            | cons keyword' value' rest' => exact hxs.first
        | cons u ws' =>
          obtain ⟨rfl, hxs'⟩ := List.cons.inj hvs
          have hback : ws' <:+ ks ++ (us ++ comma' :: ws') :=
            ⟨ks ++ (us ++ [comma']), by simp⟩
          rcases ArgList.Spelled.ends_argument rest hxs hxs' hcomma with
            ⟨arg, harg, before', after', hbefore, hafter, hinside⟩
            | ⟨earlier, arg, rest', zs, hargs, hzs, hspelled, hnext⟩
          · left
            exact ⟨arg, List.mem_cons_of_mem _ harg, before', after', hbefore.trans hback, hafter,
              hinside⟩
          · right
            refine ⟨(keyword, value) :: earlier, arg, rest', zs, ?_, hzs.trans hback, hspelled,
              hnext⟩
            rw [ArgList.toList, hargs, List.cons_append]

end

/-! ## Accepted token lists -/

/-- A comma before a closing parenthesis dangles. -/
theorem danglingCommas_pos {closing : Token} (hcomma : comma.kind = .comma)
    (hclosing : closing.kind = .closeParen) (before after : List Token) :
  0 < danglingCommas (before ++ comma :: closing :: after)
  := by
  induction before with
  | nil =>
    rw [List.nil_append, danglingCommas, if_pos ⟨hcomma, hclosing⟩]
    omega
  | cons t before ih =>
    rw [List.cons_append]
    cases before with
    | nil => exact Nat.lt_of_lt_of_le ih (Nat.le_add_left _ _)
    | cons u before => exact Nat.lt_of_lt_of_le ih (Nat.le_add_left _ _)

/-- Where an argument ends there is one. -/
theorem EndsArgument.last {arg : Option Name × Phrase} {rest : List (Option Name × Phrase)}
    {t : Token} (h : e.EndsArgument (before ++ [t]) arg rest) :
  t.kind ≠ .comma ∧ t.kind ≠ .openParen
  := by
  obtain ⟨-, -, -, -, us, -, -, ⟨xs, heq⟩, hspelled⟩ := h
  obtain ⟨u, hu, hkind⟩ := hspelled.enclosed.last
  have hlast := congrArg List.getLast? heq
  rw [List.getLast?_append, hu, Option.some_or, List.getLast?_concat] at hlast
  obtain rfl := Option.some.inj hlast
  exact hkind

/-- In a phrase that is read from tokens every comma ends an argument of a reference, so none
stands after an opening parenthesis or another comma.  It stands between this argument and the next
one, unless a closing parenthesis follows.  The number of commas that stand between arguments is
what the references in the phrase need. -/
theorem commas_of_ofTokens {eof : Token} (hts : ∀ t ∈ ts, t.kind ≠ .eof) (heof : eof.kind = .eof)
    (h : ofTokens (ts ++ [eof]) = .ok e) :
  commas ts = e.separators + danglingCommas ts
    ∧ (∀ before comma after, ts = before ++ comma :: after → comma.kind = .comma →
      e.Separates before after ∨ e.Trails before after)
    ∧ (∀ before t comma after, ts = before ++ t :: comma :: after → comma.kind = .comma →
      t.kind ≠ .comma ∧ t.kind ≠ .openParen)
    ∧ (danglingCommas ts = 0 → ∀ before comma after, ts = before ++ comma :: after →
      comma.kind = .comma → e.Separates before after)
  := by
  have hspelled := (spelled_of_ofTokens hts heof h).1
  refine ⟨Spelled.separated e hspelled, ?_, ?_, ?_⟩
  · rintro before comma after rfl hcomma
    apply Spelled.ends_argument e hspelled hcomma
  · rintro before t comma after rfl hcomma
    rw [List.append_cons] at hspelled
    rcases Spelled.ends_argument e hspelled hcomma with ⟨_, _, _, _, hends, -⟩ | ⟨_, _, hends, -⟩
    · exact hends.last
    · exact hends.last
  · rintro hzero before comma after rfl hcomma
    rcases Spelled.ends_argument e hspelled hcomma with hbetween | ⟨_, closing, -, hafter, hclosing⟩
    · exact hbetween
    · obtain ⟨after, rfl⟩ := hafter
      have hpos := danglingCommas_pos hcomma hclosing before after
      rw [List.singleton_append] at hzero
      omega

/-- The tokens of `f(g(a,),k=b)`. -/
def trailingTokens : List Token :=
  [⟨.identifier, "f", ⟨"a.f90", 0, 1⟩⟩, ⟨.openParen, "(", ⟨"a.f90", 1, 2⟩⟩,
    ⟨.identifier, "g", ⟨"a.f90", 2, 3⟩⟩, ⟨.openParen, "(", ⟨"a.f90", 3, 4⟩⟩,
    ⟨.identifier, "a", ⟨"a.f90", 4, 5⟩⟩, ⟨.comma, ",", ⟨"a.f90", 5, 6⟩⟩,
    ⟨.closeParen, ")", ⟨"a.f90", 6, 7⟩⟩, ⟨.comma, ",", ⟨"a.f90", 7, 8⟩⟩,
    ⟨.identifier, "k", ⟨"a.f90", 8, 9⟩⟩, ⟨.assignment, "=", ⟨"a.f90", 9, 10⟩⟩,
    ⟨.identifier, "b", ⟨"a.f90", 10, 11⟩⟩, ⟨.closeParen, ")", ⟨"a.f90", 11, 12⟩⟩]

/-- The phrase that they spell. -/
def trailing : Phrase :=
  .reference ⟨"f", ⟨"a.f90", 0, 1⟩⟩
    (.cons none
      (.reference ⟨"g", ⟨"a.f90", 2, 3⟩⟩
        (.cons none (.designator ⟨"a", ⟨"a.f90", 4, 5⟩⟩) .nil) ⟨"a.f90", 2, 7⟩)
      (.cons (some ⟨"k", ⟨"a.f90", 8, 9⟩⟩) (.designator ⟨"b", ⟨"a.f90", 10, 11⟩⟩) .nil))
    ⟨"a.f90", 0, 12⟩

/-- Of two commas one dangles. -/
theorem commas_of_ofTokens_trailing :
  let ts := trailingTokens
  let eof := Token.ending "a.f90" 12
  (∀ t ∈ ts, t.kind ≠ .eof) ∧ eof.kind = .eof ∧ ofTokens (ts ++ [eof]) = .ok trailing
    ∧ commas ts = 2 ∧ danglingCommas ts = 1 ∧ commas ts = trailing.separators + danglingCommas ts
    ∧ ∀ before comma after, ts = before ++ comma :: after → comma.kind = .comma →
      trailing.Separates before after ∨ trailing.Trails before after
  := by
  intro ts eof
  have hts : ∀ t ∈ ts, t.kind ≠ .eof := by decide
  have hparsed : ofTokens (ts ++ [eof]) = .ok trailing := by decide +kernel
  have hcommas := commas_of_ofTokens hts rfl hparsed
  exact ⟨hts, rfl, hparsed, by decide, by decide, hcommas.1, hcommas.2.1⟩

/-- In `f(a,)` nothing but the end of the reference follows the comma. -/
theorem not_forall_commas_eq_separators :
  ¬∀ (ts : List Token) (eof : Token) (e : Phrase), (∀ t ∈ ts, t.kind ≠ .eof) → eof.kind = .eof →
    ofTokens (ts ++ [eof]) = .ok e → commas ts = e.separators
  := by
  intro h
  let ts : List Token :=
    [⟨.identifier, "f", ⟨"a.f90", 0, 1⟩⟩, ⟨.openParen, "(", ⟨"a.f90", 1, 2⟩⟩,
      ⟨.identifier, "a", ⟨"a.f90", 2, 3⟩⟩, ⟨.comma, ",", ⟨"a.f90", 3, 4⟩⟩,
      ⟨.closeParen, ")", ⟨"a.f90", 4, 5⟩⟩]
  let e : Phrase := .reference ⟨"f", ⟨"a.f90", 0, 1⟩⟩
    (.cons none (.designator ⟨"a", ⟨"a.f90", 2, 3⟩⟩) .nil) ⟨"a.f90", 0, 5⟩
  have hparsed : ofTokens (ts ++ [Token.ending "a.f90" 5]) = .ok e := by decide +kernel
  have hcommas : commas ts = e.separators := h ts _ e (by decide) rfl hparsed
  exact absurd hcommas (by decide)

end FortranScope.Phrase
