import FortranScope.Phrase.Literal
import FortranScope.Proofs.Phrase.Precedence
import Mathlib.Tactic.Use

/-!
# The tokens of a phrase

`Phrase.Spelled` relates a phrase to the tokens that spell it, read from left to right, and
takes the spans of the phrase from those tokens.  It says nothing about precedence: every
grouping of the same tokens is spelled by them.
-/

namespace FortranScope

namespace Phrase

/-- The tokens before the value of an argument: none, or the keyword and the sign after it. -/
def KeywordSpelled : Option Name → List Token → Prop
  | none, ts => ts = []
  | some keyword, ts =>
    ∃ word sign, ts = [word, sign] ∧ word.kind = .identifier ∧ sign.kind = .assignment
      ∧ keyword = Name.ofSpelling word.value word.span

mutual

/-- The tokens `ts` spell the phrase, and its spans are where they stand. -/
def Spelled : Phrase → List Token → Prop
  | component base name, ts =>
    ∃ us percent word, ts = us ++ [percent, word] ∧ base.Spelled us ∧ percent.kind = .percent
      ∧ word.kind = .identifier ∧ name = Name.ofSpelling word.value word.span
  | reference callee args span, ts =>
    ∃ word opening us closing, ts = word :: opening :: (us ++ [closing])
      ∧ word.kind = .identifier ∧ callee = Name.ofSpelling word.value word.span
      ∧ opening.kind = .openParen ∧ args.Spelled us ∧ closing.kind = .closeParen
      ∧ span = callee.span.through closing.span
  | parentheses inner span, ts =>
    ∃ opening us closing, ts = opening :: (us ++ [closing]) ∧ opening.kind = .openParen
      ∧ inner.Spelled us ∧ closing.kind = .closeParen
      ∧ span = opening.span.through closing.span
  | unary operator operand span, ts =>
    ∃ t us, ts = t :: us ∧ PrefixOperator.ofToken? t = some operator ∧ operand.Spelled us
      ∧ span = t.span.through operand.span
  | binary operator left right, ts =>
    ∃ us t vs, ts = us ++ t :: vs ∧ left.Spelled us
      ∧ InfixOperator.ofToken? t = some operator ∧ right.Spelled vs
  | e, ts => ∃ t, ts = [t] ∧ literal? t = some (some e)

/-- The tokens `ts` spell the arguments, with commas between them.  One more comma may stand
after the last argument. -/
def ArgList.Spelled : ArgList → List Token → Prop
  | .nil, ts => ts = []
  | .cons keyword value rest, ts =>
    -- a comma after the last argument is followed by the arguments `.nil`, which no tokens spell
    ∃ ks us vs, ts = ks ++ (us ++ vs) ∧ KeywordSpelled keyword ks ∧ value.Spelled us
      ∧ (rest = .nil ∧ vs = []
        ∨ ∃ comma ws, vs = comma :: ws ∧ comma.kind = .comma ∧ rest.Spelled ws)

end

/-! ## Operands of one token -/

/-- The tokens that are operands by themselves, and the phrases they are. -/
theorem cases_of_literal? {t : Token} {e : Phrase} (h : literal? t = some (some e)) :
  (t.kind = .integer ∧ ∃ n, Integer.ofText? .value (splitKind t.value).1 = some n
      ∧ e = integer n (splitKind t.value).2 t.span)
    ∨ (t.kind = .real ∧ e = real (splitKind t.value).1 (splitKind t.value).2 t.span)
    ∨ (t.kind = .string ∧ e = character t.value t.span)
    ∨ (t.kind = .logical ∧ e = logical (t.value = ".true.") t.span)
    ∨ (t.kind = .identifier ∧ e = designator (Name.ofSpelling t.value t.span))
  := by
  rw [literal?] at h
  split at h
  · next hkind =>
    obtain ⟨n, hn, rfl⟩ := Option.map_eq_some_iff.mp (Option.some.inj h)
    left
    use hkind, n
  all_goals simp_all

/-- A token that is an operand by itself spells it, and no operator is open at its end. -/
theorem spelled_of_literal? {t : Token} {e : Phrase} (h : literal? t = some (some e)) :
  e.Spelled [t] ∧ e.Graded ∧ e.rightEdge = []
  := by
  rcases cases_of_literal? h with ⟨-, n, -, rfl⟩ | ⟨-, rfl⟩ | ⟨-, rfl⟩ | ⟨-, rfl⟩ | ⟨-, rfl⟩
  all_goals exact ⟨⟨t, rfl, h⟩, trivial, rfl⟩

/-- An identifier is read as a designator. -/
theorem literal?_of_identifier {t : Token} (h : t.kind = .identifier) :
  literal? t = some (some (designator (Name.ofSpelling t.value t.span)))
  := by
  rw [literal?, h]

/-- The token of a designator is a word. -/
theorem word_of_spelled_designator {name : Name} {ts : List Token}
    (h : (designator name).Spelled ts) :
  ∃ t, ts = [t] ∧ t.kind = .identifier ∧ name = Name.ofSpelling t.value t.span
  := by
  obtain ⟨t, rfl, ht⟩ := h
  use t, rfl
  rcases cases_of_literal? ht with ⟨-, n, -, he⟩ | ⟨-, he⟩ | ⟨-, he⟩ | ⟨-, he⟩ | ⟨hkind, he⟩
  case inr.inr.inr.inr => exact ⟨hkind, Phrase.designator.inj he⟩
  all_goals cases he

/-! ## Arguments -/

/-- The tokens `ts` spell the given arguments, each with a comma after it. -/
def ArgumentsSpelled : List (Option Name × Phrase) → List Token → Prop
  | [], ts => ts = []
  | (keyword, value) :: rest, ts =>
    ∃ ks us comma vs, ts = ks ++ (us ++ comma :: vs) ∧ KeywordSpelled keyword ks
      ∧ value.Spelled us ∧ comma.kind = .comma ∧ ArgumentsSpelled rest vs

/-- Arguments that commas follow may be followed by the rest of an argument list. -/
theorem ArgumentsSpelled.append {args args' : List (Option Name × Phrase)} {ts us : List Token}
    (h : ArgumentsSpelled args ts) (h' : (ArgList.ofList args').Spelled us) :
  (ArgList.ofList (args ++ args')).Spelled (ts ++ us)
  := by
  induction args generalizing ts with
  | nil =>
    obtain rfl := h
    apply h'
  | cons arg rest ih =>
    obtain ⟨ks, vs, comma, ws, rfl, hks, hvs, hcomma, hws⟩ := h
    use ks, vs, comma :: (ws ++ us), by simp, hks, hvs
    right
    use comma, ws ++ us, rfl, hcomma, ih hws

/-- One more argument with a comma after it. -/
theorem ArgumentsSpelled.concat {args : List (Option Name × Phrase)} {keyword : Option Name}
    {value : Phrase} {ts ks us : List Token} {comma : Token} (h : ArgumentsSpelled args ts)
    (hks : KeywordSpelled keyword ks) (hus : value.Spelled us) (hcomma : comma.kind = .comma) :
  ArgumentsSpelled (args ++ [(keyword, value)]) (ts ++ (ks ++ (us ++ [comma])))
  := by
  induction args generalizing ts with
  | nil =>
    obtain rfl := h
    exact ⟨ks, us, comma, [], rfl, hks, hus, hcomma, rfl⟩
  | cons arg rest ih =>
    obtain ⟨ks', vs, comma', ws, rfl, hks', hvs, hcomma', hws⟩ := h
    use ks', vs, comma', ws ++ (ks ++ (us ++ [comma])), by simp, hks', hvs, hcomma', ih hws

/-- The last argument, without a comma after it. -/
theorem spelled_singleton {keyword : Option Name} {value : Phrase} {ks us : List Token}
    (hks : KeywordSpelled keyword ks) (hus : value.Spelled us) :
  (ArgList.ofList [(keyword, value)]).Spelled (ks ++ us)
  := by
  use ks, us, [], by rw [List.append_nil], hks, hus
  left
  constructor
  · rfl
  · rfl

end Phrase

end FortranScope
