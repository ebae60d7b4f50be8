import FortranScope.Expr.Text
import FortranScope.Proofs.Phrase.RoundTrip
import FortranScope.Proofs.Token.Lexeme

/-!
# Expressions as phrases

`Expr.phrase` is the phrase that an expression is written as, with the parentheses that
`Expr.text` puts.  That phrase is graded: the levels by which parentheses are put fit the
powers by which operators are grouped.  `Expr.plain` and `Phrase.plain` are what an expression
and a phrase have in common.
-/

namespace FortranScope

/-! ## Levels and powers -/

/-- The powers of infix operators are in the order of their levels. -/
theorem BinaryOperator.rank_leftPower (operator : BinaryOperator) :
  operator.leftPower.rank = operator.level + 1
  := by
  cases operator <;> rfl

/-- The powers of prefix operators are in the order of their levels. -/
theorem UnaryOperator.rank_rightPower (operator : UnaryOperator) :
  (PrefixOperator.intrinsic operator).rightPower.rank = operator.level + 1
  := by
  cases operator <;> rfl

/-- Only the right power of `**` is below its level. -/
theorem BinaryOperator.rank_rightPower (operator : BinaryOperator) :
  (InfixOperator.intrinsic operator).rightPower.rank = min (operator.level + 1) 9
    ∧ (InfixOperator.intrinsic operator).rightPower.rank = operator.rightLevel
  := by
  cases operator <;> exact ⟨rfl, rfl⟩

/-- Exponentiation alone is on the highest level of operators. -/
theorem BinaryOperator.level_lt_of_ne_power {operator : BinaryOperator} (h : operator ≠ .power) :
  operator.level < 9
  := by
  cases operator
  case power => cases h rfl
  all_goals decide

/-- The right operand of an operator is on the level of the operator at least. -/
theorem BinaryOperator.level_le_rightLevel (operator : BinaryOperator) :
  operator.level ≤ operator.rightLevel
  := by
  cases operator <;> decide

/-- An infix operator is on a lower level than what needs no operator. -/
theorem BinaryOperator.level_lt_primaryLevel (operator : BinaryOperator) :
  operator.level < Expr.primaryLevel
  := by
  cases operator <;> decide

/-- A prefix operator is on a lower level than what needs no operator. -/
theorem UnaryOperator.level_lt_primaryLevel (operator : UnaryOperator) :
  operator.level < Expr.primaryLevel
  := by
  cases operator <;> decide

namespace Constant

/-- The phrase that a constant is written as. -/
def phrase : Constant → Phrase
  | integer value _ =>
    if value < 0 then .unary (.intrinsic .negate) (.integer (-value) none default) default
    else .integer value none default
  | real digits _ => .real digits none default
  | logical value _ => .logical value default
  | character value _ => .character value default

/-- The constant can be written: its number is the negative or the value of a literal, or the
text of a real literal that shows no kind. -/
def Spellable : Constant → Prop
  | integer value _ => -Integer.Width.value.limit < value ∧ value < Integer.Width.value.limit
  | real digits _ => IsReal digits.toList
  | logical _ _ => True
  | character _ _ => True

end Constant

namespace Expr

/-- `operand` in parentheses unless `level` is at least `least`. -/
def operandPhrase (least level : Nat) (operand : Phrase) : Phrase :=
  if least ≤ level then operand else .parentheses operand default

mutual

/-- The phrase that `e` is written as. -/
def phrase : Expr → Phrase
  | constant value => value.phrase
  | designator name _ => .designator ⟨name, default⟩
  | component base name =>
    .component (operandPhrase primaryLevel base.level base.phrase) ⟨name, default⟩
  | reference name _ args => .reference ⟨name, default⟩ args.phrases default
  | parentheses inner => .parentheses inner.phrase default
  | unary operator operand =>
    .unary (.intrinsic operator)
      (operandPhrase (operator.level + 1) operand.level operand.phrase) default
  | binary operator left right =>
    .binary (.intrinsic operator) (operandPhrase operator.leftLevel left.level left.phrase)
      (operandPhrase operator.rightLevel right.level right.phrase)

/-- The phrases that the arguments are written as. -/
def Args.phrases : Args → Phrase.ArgList
  | .nil => .nil
  | .cons keyword value rest =>
    .cons (keyword.map (⟨·, default⟩)) value.phrase rest.phrases

end

mutual

/-- `e` can be written: its names are names in small letters and its constants can be
written. -/
def Spellable : Expr → Prop
  | constant value => value.Spellable
  | designator name _ => IsName name.toList
  | component base name => base.Spellable ∧ IsName name.toList
  | reference name _ args => IsName name.toList ∧ args.Spellable
  | parentheses inner => inner.Spellable
  | unary _ operand => operand.Spellable
  | binary _ left right => left.Spellable ∧ right.Spellable

/-- The arguments can be written. -/
def Args.Spellable : Args → Prop
  | .nil => True
  | .cons keyword value rest =>
    (∀ name ∈ keyword, IsName name.toList) ∧ value.Spellable ∧ rest.Spellable

end

/-! ## The phrase of an expression is graded -/

/-- An operation with two operands has the level of its operator. -/
theorem exceeds_phrase {e : Expr} {power : Power} (h : power.rank ≤ e.level) :
  e.phrase.Exceeds power
  := by
  cases e with
  | binary operator left right =>
    rw [phrase]
    change power.rank < operator.leftPower.rank
    rw [operator.rank_leftPower]
    apply Nat.lt_succ_of_le h
  | constant value =>
    cases value with
    | integer value kind =>
      rw [phrase, Constant.phrase]
      split <;> trivial
    | _ => trivial
  | _ => trivial

/-- What is no operation has no open operator. -/
theorem rightEdge_phrase_eq_nil {e : Expr} (h : primaryLevel ≤ e.level) :
  e.phrase.rightEdge = []
  := by
  cases e with
  | unary operator operand => cases Nat.not_le_of_lt operator.level_lt_primaryLevel h
  | binary operator left right => cases Nat.not_le_of_lt operator.level_lt_primaryLevel h
  | constant value =>
    cases value with
    | integer value kind =>
      rw [level] at h
      split at h
      · cases Nat.not_le_of_lt UnaryOperator.negate.level_lt_primaryLevel h
      · next hvalue =>
        rw [phrase, Constant.phrase, if_neg hvalue]
        rfl
    | _ => rfl
  | _ => rfl

/-- An operand on a sufficient level, or in parentheses, exceeds the power of its operator. -/
theorem exceeds_operandPhrase {e : Expr} {least : Nat} {power : Power} (h : power.rank ≤ least) :
  (operandPhrase least e.level e.phrase).Exceeds power
  := by
  rw [operandPhrase]
  split
  · next hleast => apply exceeds_phrase (Nat.le_trans h hleast)
  · trivial

/-- Parentheses close every operator that is open before them. -/
theorem mem_rightEdge_operandPhrase {least level : Nat} {operand : Phrase} {q : Power}
    (hq : q ∈ (operandPhrase least level operand).rightEdge) :
  least ≤ level ∧ q ∈ operand.rightEdge
  := by
  rw [operandPhrase] at hq
  split at hq
  · next hleast => exact ⟨hleast, hq⟩
  · cases hq

/-- Every operator that is open at the right end of the phrase of `e` has at least the power of
its level, but for `**`. -/
theorem min_le_rank_of_mem_rightEdge (e : Expr) {q : Power} (hq : q ∈ e.phrase.rightEdge) :
  min (e.level + 1) 9 ≤ q.rank
  := by
  -- The right power of `**` is that of a product, which has rank 9.
  match e with
  | unary operator operand =>
    rcases List.mem_cons.mp hq with rfl | hq
    · rw [operator.rank_rightPower]
      apply Nat.min_le_left
    · obtain ⟨hleast, hq⟩ := mem_rightEdge_operandPhrase hq
      have hmin := min_le_rank_of_mem_rightEdge operand hq
      rw [level]
      omega
  | binary operator left right =>
    rcases List.mem_cons.mp hq with rfl | hq
    · rw [operator.rank_rightPower.1]
      apply Nat.le_refl
    · obtain ⟨hleast, hq⟩ := mem_rightEdge_operandPhrase hq
      have hmin := min_le_rank_of_mem_rightEdge right hq
      have hlevel := operator.level_le_rightLevel
      rw [level]
      omega
  | constant (.integer value kind) =>
    rw [phrase, Constant.phrase] at hq
    split at hq
    · next hvalue =>
      obtain rfl := List.mem_singleton.mp hq
      rw [UnaryOperator.rank_rightPower, level, if_pos hvalue]
      apply Nat.min_le_left
    · cases hq
  | constant (.real _ _) | constant (.logical _ _) | constant (.character _ _)
  | designator _ _ | component _ _ | reference _ _ _ | parentheses _ => cases hq

/-- What stands before an operator yields to it. -/
theorem yieldsTo_leftOperand (e : Expr) (operator : BinaryOperator) :
  (operandPhrase operator.leftLevel e.level e.phrase).YieldsTo operator.leftPower
  := by
  rw [operandPhrase]
  split
  · next hleast =>
    rw [BinaryOperator.leftLevel] at hleast
    split at hleast
    · next hpower =>
      subst hpower
      apply Phrase.yieldsTo_of_rightEdge_eq_nil (rightEdge_phrase_eq_nil hleast)
    · next hpower =>
      intro q hq
      have hmin := min_le_rank_of_mem_rightEdge e hq
      have hlevel := BinaryOperator.level_lt_of_ne_power hpower
      rw [Power.le_def, operator.rank_leftPower]
      omega
  · apply Phrase.yieldsTo_of_rightEdge_eq_nil rfl

/-- Parentheses make no difference to whether an operand is graded. -/
theorem graded_operandPhrase {least level : Nat} {operand : Phrase} :
  (operandPhrase least level operand).Graded ↔ operand.Graded
  := by
  rw [operandPhrase]
  split
  · rfl
  · rfl

mutual

/-- Every expression is written as a graded phrase. -/
theorem graded_phrase (e : Expr) :
  e.phrase.Graded
  := by
  match e with
  | constant value =>
    cases value with
    | integer value kind =>
      rw [phrase, Constant.phrase]
      split
      · exact ⟨trivial, trivial⟩
      · trivial
    | _ => trivial
  | designator _ _ => trivial
  | component base _ =>
    use graded_operandPhrase.mpr (graded_phrase base)
    apply Phrase.yieldsTo_of_rightEdge_eq_nil
    rw [operandPhrase]
    split
    · next hlevel => apply rightEdge_phrase_eq_nil hlevel
    · rfl
  | reference _ _ args => exact args.graded_phrases
  | parentheses inner => exact graded_phrase inner
  | unary operator operand =>
    use graded_operandPhrase.mpr (graded_phrase operand)
    apply exceeds_operandPhrase
    rw [operator.rank_rightPower]
  | binary operator left right =>
    use graded_operandPhrase.mpr (graded_phrase left), yieldsTo_leftOperand left operator,
      graded_operandPhrase.mpr (graded_phrase right)
    apply exceeds_operandPhrase
    rw [operator.rank_rightPower.2]

theorem Args.graded_phrases (args : Args) :
  args.phrases.Graded
  := by
  match args with
  | .nil => trivial
  | .cons _ value rest => exact ⟨value.graded_phrase, rest.graded_phrases⟩

end

/-! ## The phrase of an expression can be written -/

/-- Parentheses make no difference to whether an operand is writable. -/
theorem writable_operandPhrase {least level : Nat} {operand : Phrase} :
  (operandPhrase least level operand).Writable ↔ operand.Writable
  := by
  rw [operandPhrase]
  split
  · rfl
  · rfl

mutual

/-- What can be written as an expression can be written as a phrase. -/
theorem writable_phrase (e : Expr) (h : e.Spellable) :
  e.phrase.Writable
  := by
  match e with
  | constant value =>
    cases value with
    | integer value kind =>
      rw [phrase, Constant.phrase]
      obtain ⟨hlower, hupper⟩ := h
      split
      · next hvalue =>
        change 0 ≤ -value ∧ -value < _
        omega
      · next hvalue => exact ⟨Int.not_lt.mp hvalue, hupper⟩
    | real digits kind => exact IsReal.underscore_notMem h
    | _ => trivial
  | designator name _ => exact IsName.foldCase_eq h
  | component base name =>
    exact ⟨writable_operandPhrase.mpr (writable_phrase base h.1), IsName.foldCase_eq h.2⟩
  | reference name _ args => exact ⟨IsName.foldCase_eq h.1, args.writable_phrases h.2⟩
  | parentheses inner => exact writable_phrase inner h
  | unary operator operand => exact writable_operandPhrase.mpr (writable_phrase operand h)
  | binary operator left right =>
    exact ⟨writable_operandPhrase.mpr (writable_phrase left h.1),
      writable_operandPhrase.mpr (writable_phrase right h.2)⟩

theorem Args.writable_phrases (args : Args) (h : args.Spellable) :
  args.phrases.Writable
  := by
  match args with
  | .nil => trivial
  | .cons keyword value rest =>
    obtain ⟨hkeyword, hvalue, hrest⟩ := h
    refine ⟨?_, value.writable_phrase hvalue, rest.writable_phrases hrest⟩
    intro name hname
    obtain ⟨text, htext, rfl⟩ := Option.map_eq_some_iff.mp hname
    apply IsName.foldCase_eq (hkeyword text htext)

end

end Expr

/-! ## What phrases and expressions have in common -/

namespace Phrase

mutual

/-- The phrase without its places, kinds and parentheses. -/
def plain : Phrase → Phrase
  | integer value _ _ => integer value none default
  | real digits _ _ => real digits none default
  | character value _ => character value default
  | logical value _ => logical value default
  | designator name => designator name.bare
  | component base name => component base.plain name.bare
  | reference callee args _ => reference callee.bare args.plain default
  | parentheses inner _ => inner.plain
  | unary operator operand _ => unary operator operand.plain default
  | binary operator left right => binary operator left.plain right.plain

/-- The arguments without their places, kinds and parentheses. -/
def ArgList.plain : ArgList → ArgList
  | .nil => .nil
  | .cons keyword value rest => .cons (keyword.map Name.bare) value.plain rest.plain

end

mutual

/-- The plain form shows no places in the first place. -/
theorem plain_bare (e : Phrase) :
  e.bare.plain = e.plain
  := by
  match e with
  | integer _ _ _ | real _ _ _ | character _ _ | logical _ _ | designator _ => rfl
  | component base _ => rw [bare, plain, plain, plain_bare base, Name.bare_bare]
  | reference _ args _ => rw [bare, plain, plain, args.plain_bare, Name.bare_bare]
  | parentheses inner _ => rw [bare, plain, plain, plain_bare inner]
  | unary _ operand _ => rw [bare, plain, plain, plain_bare operand]
  | binary _ left right => rw [bare, plain, plain, plain_bare left, plain_bare right]

theorem ArgList.plain_bare (args : ArgList) :
  args.bare.plain = args.plain
  := by
  match args with
  | .nil => rfl
  | .cons keyword value rest =>
    rw [ArgList.bare, ArgList.plain, ArgList.plain, Phrase.plain_bare value, rest.plain_bare,
      Option.map_map]
    rfl

end

end Phrase

/-- The phrase of a constant is plain. -/
theorem Constant.plain_phrase (value : Constant) :
  value.phrase.plain = value.phrase
  := by
  cases value with
  | integer value kind =>
    rw [phrase]
    split <;> rfl
  | _ => rfl

namespace Expr

mutual

/-- The phrase that says what `e` says, without places, kinds and parentheses. -/
def plain : Expr → Phrase
  | constant value => value.phrase
  | designator name _ => .designator ⟨name, default⟩
  | component base name => .component base.plain ⟨name, default⟩
  | reference name _ args => .reference ⟨name, default⟩ args.plain default
  | parentheses inner => inner.plain
  | unary operator operand => .unary (.intrinsic operator) operand.plain default
  | binary operator left right => .binary (.intrinsic operator) left.plain right.plain

/-- The arguments without places, kinds and parentheses. -/
def Args.plain : Args → Phrase.ArgList
  | .nil => .nil
  | .cons keyword value rest => .cons (keyword.map (⟨·, default⟩)) value.plain rest.plain

end

/-- Parentheses are left out of the plain form. -/
theorem plain_operandPhrase {least level : Nat} {operand : Phrase} :
  (operandPhrase least level operand).plain = operand.plain
  := by
  rw [operandPhrase]
  split
  · rfl
  · rfl

mutual

/-- The parentheses that are put make no difference. -/
theorem plain_phrase (e : Expr) :
  e.phrase.plain = e.plain
  := by
  match e with
  | constant value => exact value.plain_phrase
  | designator _ _ => rfl
  | component base _ =>
    rw [phrase, plain, Phrase.plain, plain_operandPhrase, plain_phrase base]
    rfl
  | reference _ _ args =>
    rw [phrase, plain, Phrase.plain, args.plain_phrases]
    rfl
  | parentheses inner => rw [phrase, plain, Phrase.plain, plain_phrase inner]
  | unary _ operand =>
    rw [phrase, plain, Phrase.plain, plain_operandPhrase, plain_phrase operand]
  | binary _ left right =>
    rw [phrase, plain, Phrase.plain, plain_operandPhrase, plain_operandPhrase, plain_phrase left,
      plain_phrase right]

theorem Args.plain_phrases (args : Args) :
  args.phrases.plain = args.plain
  := by
  match args with
  | .nil => rfl
  | .cons keyword value rest =>
    rw [Args.phrases, Args.plain, Phrase.ArgList.plain, value.plain_phrase, rest.plain_phrases,
      Option.map_map]
    rfl

end

end Expr

end FortranScope
