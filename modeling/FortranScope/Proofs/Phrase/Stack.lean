import FortranScope.Phrase.Reading
import FortranScope.Proofs.Phrase.Grammar

/-!
# Open constructs

What the constructs that a reading left open say about the tokens read so far.  A list of
frames has the innermost construct first, so the tokens of the outer ones come before its
own.  `Reading.Pending` holds of a phrase after open constructs if both are spelled by the
tokens read so far and graded; `Reading.reduce`, which completes operators, keeps it.
-/

namespace FortranScope

namespace Frame

/-- The tokens that the construct has taken. -/
def Spelled : Frame → List Token → Prop
  | prefixed operator span, ts =>
    ∃ t, ts = [t] ∧ PrefixOperator.ofToken? t = some operator ∧ span = t.span
  | infixed operator left, ts =>
    ∃ us t, ts = us ++ [t] ∧ left.Spelled us ∧ InfixOperator.ofToken? t = some operator
  | group opening, ts => ∃ t, ts = [t] ∧ t.kind = .openParen ∧ opening = t.span
  | reference callee args keyword, ts =>
    ∃ word opening us ks, ts = word :: opening :: (us ++ ks) ∧ word.kind = .identifier
      ∧ callee = Name.ofSpelling word.value word.span ∧ opening.kind = .openParen
      ∧ Phrase.ArgumentsSpelled args us ∧ Phrase.KeywordSpelled keyword ks

/-- The phrases in the construct are graded, and what stands before its operator yields to
it. -/
def Graded : Frame → Prop
  | infixed operator left => left.Graded ∧ left.YieldsTo operator.leftPower
  | reference _ args _ => (Phrase.ArgList.ofList args).Graded
  | _ => True

/-- If the construct is an operator between operands, it exceeds the given power. -/
def Exceeds (power : Power) : Frame → Prop
  | infixed operator _ => power < operator.leftPower
  | _ => True

end Frame

namespace Reading

/-- The power that an operator has to exceed to take the phrase that follows the open
constructs, where `limit` is that power if nothing is open. -/
def bound (limit : Power) : List Frame → Power
  | [] => limit
  | .prefixed operator _ :: _ => operator.rightPower
  | .infixed operator _ :: _ => operator.rightPower
  | _ => .lowest

/-- The tokens that the open constructs have taken, outermost construct first. -/
def FramesSpelled : List Frame → List Token → Prop
  | [], ts => ts = []
  | frame :: outer, ts => ∃ us vs, ts = us ++ vs ∧ FramesSpelled outer us ∧ frame.Spelled vs

/-- Every open construct is graded and exceeds the bound of those around it. -/
def FramesGraded (limit : Power) : List Frame → Prop
  | [] => True
  | frame :: outer =>
    frame.Graded ∧ frame.Exceeds (bound limit outer) ∧ FramesGraded limit outer

/-- No open operator has to be completed before an operator of the given power. -/
def Settled (power : Power) : List Frame → Prop
  | .prefixed operator _ :: _ => operator.rightPower < power
  | .infixed operator _ :: _ => operator.rightPower < power
  | _ => True

/-- The phrase `e` after the open constructs `frames` is what the tokens `ts` spell so far. -/
structure Pending (limit : Power) (ts : List Token) (frames : List Frame) (e : Phrase) :
    Prop where
  spelled : ∃ us vs, ts = us ++ vs ∧ FramesSpelled frames us ∧ e.Spelled vs
  frames_graded : FramesGraded limit frames
  graded : e.Graded
  exceeds : e.Exceeds (bound limit frames)

variable {limit power : Power} {frames : List Frame} {e : Phrase} {ts : List Token}

/-! ## The effect of a token, by focus -/

/-- Only a name may come after a percent sign. -/
theorem step_component (limit : Power) (frames : List Frame) (base : Phrase) (t : Token) :
  step limit ⟨frames, .component base⟩ t
    = if t.kind = .identifier then
        .shift ⟨frames, .complete (.component base (Name.ofSpelling t.value t.span))⟩
      else refuse t
  := rfl

theorem step_complete (limit : Power) (frames : List Frame) (e : Phrase) (t : Token) :
  step limit ⟨frames, .complete e⟩ t = afterPhrase limit frames e t
  := rfl

/-! ## Completing operators -/

/-- A component or a list of arguments always exceeds the bound. -/
theorem bound_lt_suffix (h : limit < .suffix) :
  bound limit frames < .suffix
  := by
  match frames with
  | [] => apply h
  | .prefixed operator _ :: _ => apply operator.rightPower_lt_suffix
  | .infixed operator _ :: _ => apply operator.rightPower_lt_suffix
  | .group _ :: _ => apply Nat.zero_lt_succ
  | .reference _ _ _ :: _ => apply Nat.zero_lt_succ

/-- Nothing is completed where no open operator has to be. -/
theorem reduce_of_settled (h : Settled power frames) :
  reduce power frames e = (frames, e)
  := by
  match frames with
  | [] => rfl
  | .prefixed operator _ :: _ => rw [reduce, if_neg (Power.not_le.mpr h)]
  | .infixed operator _ :: _ => rw [reduce, if_neg (Power.not_le.mpr h)]
  | .group _ :: _ => rfl
  | .reference _ _ _ :: _ => rfl

/-- An operator that exceeds the bound completes nothing. -/
theorem settled_of_bound_lt (h : bound limit frames < power) :
  Settled power frames
  := by
  match frames with
  | [] => trivial
  | .prefixed _ _ :: _ => apply h
  | .infixed _ _ :: _ => apply h
  | .group _ :: _ => trivial
  | .reference _ _ _ :: _ => trivial

/-- After completing what has to be, nothing more has to be. -/
theorem settled_reduce (power : Power) (frames : List Frame) (e : Phrase) :
  Settled power (reduce power frames e).1
  := by
  fun_induction reduce power frames e with
  | case1 e operator span frames h ih => apply ih
  | case2 e operator span frames h => apply Power.not_le.mp h
  | case3 e operator left frames h ih => apply ih
  | case4 e operator left frames h => apply Power.not_le.mp h
  | case5 frames e hprefixed hinfixed =>
    match frames with
    | [] => trivial
    | .prefixed operator span :: outer => cases hprefixed operator span outer rfl
    | .infixed operator left :: outer => cases hinfixed operator left outer rfl
    | .group _ :: _ => trivial
    | .reference _ _ _ :: _ => trivial

/-- Inside a construct, an operator of the given power ends a phrase that is settled for it
only if it is no operator at all. -/
theorem le_bound_iff {frame : Frame} (h : Settled power (frame :: frames)) :
  power ≤ bound limit (frame :: frames) ↔ power = .lowest
  := by
  rw [← Power.le_lowest_iff]
  match frame with
  | .prefixed _ _ =>
    constructor
    · intro hle
      cases Power.not_le.mpr h hle
    · intro hle
      apply Power.le_trans hle (Power.lowest_le _)
  | .infixed _ _ =>
    constructor
    · intro hle
      cases Power.not_le.mpr h hle
    · intro hle
      apply Power.le_trans hle (Power.lowest_le _)
  | .group _ => rfl
  | .reference _ _ _ => rfl

/-- Once the operators before it are completed, a token either ends the construct around the
phrase or takes the phrase as its operand. -/
theorem afterPhrase_eq (limit : Power) (frames : List Frame) (e : Phrase) (t : Token) :
  afterPhrase limit frames e t
    = if t.kind.leftPower ≤ bound limit (reduce t.kind.leftPower frames e).1 then
        finish (reduce t.kind.leftPower frames e).1 (reduce t.kind.leftPower frames e).2 t
      else extend (reduce t.kind.leftPower frames e).1 (reduce t.kind.leftPower frames e).2 t
  := by
  have hsettled := settled_reduce t.kind.leftPower frames e
  rw [afterPhrase]
  revert hsettled
  rcases reduce t.kind.leftPower frames e with ⟨_ | ⟨frame, outer⟩, e⟩
  · intro _
    rfl
  · intro hsettled
    simp only [le_bound_iff hsettled]

/-- Completing an operator before its operand. -/
theorem Pending.prefixed {operator : PrefixOperator} {span : Span}
    (h : Pending limit ts (.prefixed operator span :: frames) e) :
  Pending limit ts frames (.unary operator e (span.through e.span))
  := by
  obtain ⟨⟨us, vs, rfl, ⟨us', _, rfl, hus', t, rfl, ht, rfl⟩, hvs⟩, hframes, he, hexceeds⟩ := h
  constructor
  · use us', t :: vs, by simp, hus', t, vs
  · apply hframes.2.2
  · use he, hexceeds
  · trivial

/-- Completing an operator between its operands. -/
theorem Pending.infixed {operator : InfixOperator} {left : Phrase}
    (h : Pending limit ts (.infixed operator left :: frames) e) :
  Pending limit ts frames (.binary operator left e)
  := by
  obtain ⟨⟨us, vs, rfl, ⟨us', _, rfl, hus', ws, t, rfl, hws, ht⟩, hvs⟩, hframes, he, hexceeds⟩
    := h
  constructor
  · use us', ws ++ t :: vs, by simp, hus', ws, t, vs
  · apply hframes.2.2
  · use hframes.1.1, hframes.1.2, he, hexceeds
  · apply hframes.2.1

/-- The phrase that is pending after operators are completed yields to the operator for which
they were. -/
theorem Pending.reduce (h : Pending limit ts frames e) (hyields : e.YieldsTo power) :
  Pending limit ts (reduce power frames e).1 (reduce power frames e).2
    ∧ (Reading.reduce power frames e).2.YieldsTo power
  := by
  fun_induction Reading.reduce power frames e with
  | case1 e operator span frames hle ih =>
    apply ih h.prefixed
    apply Phrase.yieldsTo_unary.mpr ⟨hle, hyields⟩
  | case2 e operator span frames hle => exact ⟨h, hyields⟩
  | case3 e operator left frames hle ih =>
    apply ih h.infixed
    apply Phrase.yieldsTo_binary.mpr ⟨hle, hyields⟩
  | case4 e operator left frames hle => exact ⟨h, hyields⟩
  | case5 frames e => exact ⟨h, hyields⟩

end Reading

end FortranScope
