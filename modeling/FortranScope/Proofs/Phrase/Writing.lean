import FortranScope.Proofs.Phrase.Completeness
import FortranScope.Proofs.Phrase.Numeral

/-!
# Writing phrases

`Phrase.slots` writes a phrase out from left to right, as the tokens that have to stand there
and the places where a comma may stand besides.  The tokens that a phrase is read from fill
its slots.
-/

namespace FortranScope

/-! ## Tokens without places -/

namespace Token

/-- The token of the given kind and value at no particular place. -/
def unplaced (kind : TokenKind) (value : String) : Token := ⟨kind, value, default⟩

/-- What a token is besides its place: its kind, and its value where the kind does not fix
it. -/
def word (t : Token) : TokenKind × Option String :=
  (t.kind, if t.kind.carriesValue then some t.value else none)

/-- Tokens are the same words if they have the same kind, and the same value where the kind carries
one. -/
theorem word_eq_iff {t u : Token} :
  t.word = u.word ↔ t.kind = u.kind ∧ (t.kind.carriesValue → t.value = u.value)
  := by
  simp only [word, Prod.mk.injEq]
  constructor
  · rintro ⟨hkind, hvalue⟩
    use hkind
    intro hcarries
    rw [← hkind, if_pos hcarries, if_pos hcarries] at hvalue
    apply Option.some.inj hvalue
  · rintro ⟨hkind, hvalue⟩
    use hkind
    rw [← hkind]
    split
    · next hcarries => rw [hvalue hcarries]
    · rfl

/-- The token `t` is what `written` is, where numbers are compared by their value and their
kind, words without regard to case and logical literals by their truth value.  The text of an
operator does not count, since it has several spellings. -/
def Agrees (t written : Token) : Prop :=
  t.kind = written.kind
    ∧ match written.kind with
      | .integer =>
        (∃ n, Integer.ofText? .value (splitKind t.value).1 = some n
          ∧ Integer.ofText? .value (splitKind written.value).1 = some n)
          ∧ (splitKind t.value).2 = (splitKind written.value).2
      | .identifier => Text.foldCase t.value = written.value
      | .logical => t.value = ".true." ↔ written.value = ".true."
      | .real => t.value = written.value
      | .string => t.value = written.value
      | .definedOperator => t.value = written.value
      | _ => True

/-- Where a kind carries no value, it alone is the word. -/
theorem word_of_not_carriesValue {t u : Token} (h : u.kind.carriesValue = false) :
  t.word = u.word ↔ t.kind = u.kind
  := by
  rw [word_eq_iff]
  constructor
  · apply And.left
  · intro hkind
    use hkind
    rw [hkind, h]
    intro hcarries
    cases hcarries

/-- Where a kind carries no value, tokens of it agree. -/
theorem agrees_of_not_carriesValue {t u : Token} (h : u.kind.carriesValue = false)
    (hkind : t.kind = u.kind) :
  t.Agrees u
  := by
  use hkind
  revert h
  cases u.kind
  all_goals simp [TokenKind.carriesValue]

end Token

/-! ## Operators -/

/-- The token that an operator between operands is written by. -/
def InfixOperator.token : InfixOperator → Token
  | intrinsic operator => .unplaced operator.tokenKind operator.spelling
  | defined word => .unplaced .definedOperator word

/-- The token that an operator before its operand is written by. -/
def PrefixOperator.token : PrefixOperator → Token
  | intrinsic operator => .unplaced operator.tokenKind operator.spelling
  | defined word => .unplaced .definedOperator word

namespace InfixOperator

variable {t : Token}

/-- A token is an intrinsic infix operator exactly if it has the kind of the operator. -/
theorem ofToken?_eq_intrinsic_iff {operator : BinaryOperator} :
  ofToken? t = some (intrinsic operator) ↔ t.kind = operator.tokenKind
  := by
  by_cases hkind : t.kind = .definedOperator
  · rw [ofToken?, if_pos hkind, hkind]
    cases operator
    all_goals simp [BinaryOperator.tokenKind]
  · rw [ofToken?, if_neg hkind, Option.map_eq_some_iff]
    simp [BinaryOperator.ofTokenKind?_eq_some_iff]

/-- A token is a defined infix operator exactly if it has that kind, and the word as its value. -/
theorem ofToken?_eq_defined_iff {word : String} :
  ofToken? t = some (defined word) ↔ t.kind = .definedOperator ∧ t.value = word
  := by
  by_cases hkind : t.kind = .definedOperator
  · simp [ofToken?, hkind]
  · simp [ofToken?, hkind]

/-- The tokens that denote an operator are those that are written like it. -/
theorem ofToken?_eq_some_iff {operator : InfixOperator} :
  ofToken? t = some operator ↔ t.word = operator.token.word
  := by
  cases operator with
  | intrinsic operator =>
    rw [ofToken?_eq_intrinsic_iff, Token.word_of_not_carriesValue]
    · rfl
    · cases operator <;> rfl
  | defined word =>
    rw [ofToken?_eq_defined_iff, Token.word_eq_iff]
    simp only [token, Token.unplaced, and_congr_right_iff]
    intro hkind
    simp [hkind, TokenKind.carriesValue]

/-- A token of an infix operator agrees with the one that the operator is written by. -/
theorem agrees_token {operator : InfixOperator} (h : ofToken? t = some operator) :
  t.Agrees operator.token
  := by
  cases operator with
  | intrinsic operator =>
    apply Token.agrees_of_not_carriesValue
    · cases operator <;> rfl
    · apply ofToken?_eq_intrinsic_iff.mp h
  | defined word => apply ofToken?_eq_defined_iff.mp h

end InfixOperator

namespace PrefixOperator

variable {t : Token}

/-- A token is an intrinsic prefix operator exactly if it has the kind of the operator. -/
theorem ofToken?_eq_intrinsic_iff {operator : UnaryOperator} :
  ofToken? t = some (intrinsic operator) ↔ t.kind = operator.tokenKind
  := by
  by_cases hkind : t.kind = .definedOperator
  · rw [ofToken?, if_pos hkind, hkind]
    cases operator
    all_goals simp [UnaryOperator.tokenKind]
  · rw [ofToken?, if_neg hkind, Option.map_eq_some_iff]
    simp [UnaryOperator.ofTokenKind?_eq_some_iff]

/-- A token is a defined prefix operator exactly if it has that kind, and the word as its value. -/
theorem ofToken?_eq_defined_iff {word : String} :
  ofToken? t = some (defined word) ↔ t.kind = .definedOperator ∧ t.value = word
  := by
  by_cases hkind : t.kind = .definedOperator
  · simp [ofToken?, hkind]
  · simp [ofToken?, hkind]

/-- The tokens that denote an operator are those that are written like it. -/
theorem ofToken?_eq_some_iff {operator : PrefixOperator} :
  ofToken? t = some operator ↔ t.word = operator.token.word
  := by
  cases operator with
  | intrinsic operator =>
    rw [ofToken?_eq_intrinsic_iff, Token.word_of_not_carriesValue]
    · rfl
    · cases operator <;> rfl
  | defined word =>
    rw [ofToken?_eq_defined_iff, Token.word_eq_iff]
    simp only [token, Token.unplaced, and_congr_right_iff]
    intro hkind
    simp [hkind, TokenKind.carriesValue]

/-- A token of a prefix operator agrees with the one that the operator is written by. -/
theorem agrees_token {operator : PrefixOperator} (h : ofToken? t = some operator) :
  t.Agrees operator.token
  := by
  cases operator with
  | intrinsic operator =>
    apply Token.agrees_of_not_carriesValue
    · cases operator <;> rfl
    · apply ofToken?_eq_intrinsic_iff.mp h
  | defined word => apply ofToken?_eq_defined_iff.mp h

end PrefixOperator

/-! ## Slots -/

/-- A place in a written phrase: a token that has to stand there, or a comma that may. -/
inductive Slot where
  | token (t : Token)
  | spareComma
deriving DecidableEq, Repr

namespace Phrase

/-- The tokens of a keyword before the value of an argument. -/
def keywordTokens : Option Name → List Token
  | none => []
  | some keyword => [.unplaced .identifier keyword.text, .unplaced .assignment "="]

mutual

/-- The phrase written out from left to right. -/
def slots : Phrase → List Slot
  | integer value kind _ => [.token (.unplaced .integer (withKind (toString value) kind))]
  | real digits kind _ => [.token (.unplaced .real (withKind digits kind))]
  | character value _ => [.token (.unplaced .string value)]
  | logical value _ => [.token (.unplaced .logical (if value then ".true." else ".false."))]
  | designator name => [.token (.unplaced .identifier name.text)]
  | component base name =>
    base.slots
      ++ [.token (.unplaced .percent "%"), .token (.unplaced .identifier name.text)]
  | reference callee args _ =>
    .token (.unplaced .identifier callee.text) :: .token (.unplaced .openParen "(")
      :: (args.slots ++ [.token (.unplaced .closeParen ")")])
  | parentheses inner _ =>
    .token (.unplaced .openParen "(") :: (inner.slots ++ [.token (.unplaced .closeParen ")")])
  | unary operator operand _ => .token operator.token :: operand.slots
  | binary operator left right => left.slots ++ .token operator.token :: right.slots

/-- The arguments written out with commas between them.  One more comma may stand after the last
argument. -/
def ArgList.slots : ArgList → List Slot
  | .nil => []
  | .cons keyword value .nil =>
    (keywordTokens keyword).map .token ++ (value.slots ++ [.spareComma])
  | .cons keyword value rest =>
    (keywordTokens keyword).map .token
      ++ (value.slots ++ .token (.unplaced .comma ",") :: rest.slots)

end

end Phrase

/-- The tokens stand in the slots in order, each related by `R` to the token that has to stand
there. -/
inductive Fills (R : Token → Token → Prop) : List Slot → List Token → Prop where
  | nil : Fills R [] []
  | token {t written : Token} {slots : List Slot} {ts : List Token} :
    R t written → Fills R slots ts → Fills R (.token written :: slots) (t :: ts)
  | comma {t : Token} {slots : List Slot} {ts : List Token} :
    t.kind = .comma → Fills R slots ts → Fills R (.spareComma :: slots) (t :: ts)
  | noComma {slots : List Slot} {ts : List Token} :
    Fills R slots ts → Fills R (.spareComma :: slots) ts

namespace Fills

variable {R : Token → Token → Prop} {slots slots' : List Slot} {ts us : List Token}

/-- Slots are filled one list after the other. -/
theorem append (h : Fills R slots ts) (h' : Fills R slots' us) :
  Fills R (slots ++ slots') (ts ++ us)
  := by
  induction h with
  | nil => apply h'
  | token ht _ ih => apply Fills.token ht ih
  | comma ht _ ih => apply Fills.comma ht ih
  | noComma _ ih => apply Fills.noComma ih

theorem singleton {t written : Token} (h : R t written) :
  Fills R [.token written] [t]
  := .token h .nil

end Fills

end FortranScope
