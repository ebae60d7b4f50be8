import FortranScope.Proofs.Expr.Refolding
import FortranScope.Proofs.Session.Provenance

/-!
# Reading, analysing and folding again

Folding text is idempotent: the text of a folded expression is read, analysed without a fault and
folded to an expression with the same text.  The one exception is the least integer of the width,
as there is no literal of its absolute value.
-/

namespace FortranScope.Session

/-- The text of what source text is folded to is read, analysed without a message and folded to an
expression with the same text, whatever was analysed and folded in between.  The least integer is
excepted. -/
theorem refolds_text {r q : Session} (hr : r.OfSource) (hq : r.Extends q) {s : ScopeId}
    {source file : String} {p : Phrase} (hp : Phrase.ofSource source file = .ok p) {e₀ : Expr}
    (he₀ : (r.analyze s p).1 = some e₀) {e : Expr} (he : ((r.analyze s p).2.fold e₀).1 = e)
    (hrange : ∀ n k, .integer n k ∈ e.constants →
      Integer.Fits .value n ∧ n ≠ -Integer.Width.value.limit) (file' : String) :
  ∃ p' e₁, Phrase.ofSource e.text file' = .ok p'
    ∧ (q.analyze s p').1 = some e₁
    ∧ (q.analyze s p').2.context.log = q.context.log
    ∧ ((q.analyze s p').2.fold e₁).1.text = e.text
  := by
  have hlegible := Context.legibleConstants_of_holds hr.holds_legible
  have hin : e.In (r.context.vocabulary s) := by
    rw [← he]
    apply Context.in_fold_of_analysis hlegible (Phrase.legible_of_ofSource hp) he₀
  have hfolded : e.Folded r.context.config := by
    rw [← he]
    apply Expr.folded_fold
  have hspellable : IntegersSpellable e.constants := by
    intro n k hn
    obtain ⟨hfits, hne⟩ := hrange n k hn
    exact ⟨lt_of_le_of_ne hfits.1 (Ne.symm hne), hfits.2⟩
  obtain ⟨p', hp', e₁, he₁, hfold⟩ := Context.exists_foldsTo_text hin hfolded hspellable file'
  -- messages and occurrences make no difference to an analysis, so `q` is as good as `r`
  have hagrees := (hq.agrees s).analysis p'
  refine ⟨p', e₁, hp', ?_, ?_, ?_⟩
  · change (q.context.analysis s p').result = some e₁
    rw [hagrees, he₁]
  · have hfaults : (q.context.analysis s p').faults = [] := by
      apply (q.context.exact_analysis s p').mp
      rw [hagrees, he₁]
      rfl
    change q.context.log ++ (q.context.analysis s p').faults = q.context.log
    rw [hfaults, List.append_nil]
  · change (e₁.fold q.context.config).1.text = e.text
    rw [hq.config, hfold, Expr.text_renew]

/-- There is a named constant `n` and a variable `v`. -/
def negativeConstantRun : List Operation :=
  let span : Span := ⟨"a.f90", 0, 1⟩
  [.onTree (.declare .global ⟨"n", span⟩
      (.object ⟨none, some (.pending (.unary (.intrinsic .negate)
        (.integer 2 (some "8") ⟨"a.f90", 1, 4⟩) ⟨"a.f90", 0, 4⟩)), []⟩)),
    .onTree (.addAttr ⟨0⟩ .parameter),
    .onTree (.declare .global ⟨"v", span⟩ (.object ⟨none, none, []⟩)),
    .resolve]

/-- The expressions given in `negativeConstantRun` come from sources. -/
theorem ofSource_negativeConstantRun :
  ((initial .standard).run negativeConstantRun).OfSource
  := by
  apply (OfSource.initial .standard).run
  have hinit : Phrase.ofSource "-2_8" "a.f90" = .ok (.unary (.intrinsic .negate)
      (.integer 2 (some "8") ⟨"a.f90", 1, 4⟩) ⟨"a.f90", 0, 4⟩) := by
    decide +kernel
  intro d hd
  obtain rfl := List.mem_singleton.mp hd
  apply Deferred.OfSource.pending hinit

/-- `V**(n-1)+MAX('it''s',3_8)` is folded to `v**(-3)+max('it''s',3)`. -/
theorem refolds_text_negativeConstantRun :
  let r := (initial .standard).run negativeConstantRun
  let word (start stop : Nat) : Span := ⟨"a.f90", start, stop⟩
  let p := Phrase.binary (.intrinsic .add)
    (.binary (.intrinsic .power) (.designator ⟨"v", word 0 1⟩)
      (.parentheses (.binary (.intrinsic .subtract) (.designator ⟨"n", word 4 5⟩)
        (.integer 1 none (word 6 7))) (word 3 8)))
    (.reference ⟨"max", word 9 12⟩ (.ofList [(none, .character "it's" (word 13 20)),
      (none, .integer 3 (some "8") (word 21 24))]) (word 9 25))
  let call := Expr.reference "max" none (.ofList [(none, .constant (.character "it's" 1)),
    (none, .constant (.integer 3 8))])
  let e₀ := Expr.binary .add (.binary .power (.designator "v" ⟨1⟩)
    (.parentheses (.binary .subtract (.constant (.integer (-2) 8)) (.constant (.integer 1 4)))))
    call
  let e := Expr.binary .add
    (.binary .power (.designator "v" ⟨1⟩) (.constant (.integer (-3) 8))) call
  let q := ((r.analyze .global p).2.fold e₀).2
  r.OfSource ∧ r.Extends q
    ∧ Phrase.ofSource "V**(n-1)+MAX('it''s',3_8)" "a.f90" = .ok p
    ∧ (r.analyze .global p).1 = some e₀
    ∧ ((r.analyze .global p).2.fold e₀).1 = e
    ∧ (∀ n k, .integer n k ∈ e.constants →
      Integer.Fits .value n ∧ n ≠ -Integer.Width.value.limit)
    ∧ ∃ p' e₁, Phrase.ofSource e.text "b.f90" = .ok p'
      ∧ (q.analyze .global p').1 = some e₁
      ∧ (q.analyze .global p').2.context.log = q.context.log
      ∧ ((q.analyze .global p').2.fold e₁).1.text = e.text
  := by
  intro r word p call e₀ e q
  have hr : r.OfSource := ofSource_negativeConstantRun
  have hq : r.Extends q := (r.extends_analyze .global p).trans (extends_fold _ e₀)
  have hp : Phrase.ofSource "V**(n-1)+MAX('it''s',3_8)" "a.f90" = .ok p := by decide +kernel
  have he₀ : (r.analyze .global p).1 = some e₀ := by decide +kernel
  have he : ((r.analyze .global p).2.fold e₀).1 = e := by decide +kernel
  have hrange (n k : Int) (hn : .integer n k ∈ e.constants) :
      Integer.Fits .value n ∧ n ≠ -Integer.Width.value.limit := by
    simp [e, call, Expr.constants, Expr.Args.constants, Expr.Args.ofList] at hn
    rcases hn with ⟨rfl, -⟩ | ⟨rfl, -⟩
    · decide
    · decide
  exact ⟨hr, hq, hp, he₀, he, hrange, refolds_text hr hq hp he₀ he hrange "b.f90"⟩

/-- The value of `-9223372036854775807-1` is written as the negative of a number that is no
literal. -/
theorem not_refolds_text_least :
  let r := initial .standard
  let e := Expr.constant (.integer (-9223372036854775808) 4)
  r.OfSource
    ∧ (∃ p e₀, Phrase.ofSource "-9223372036854775807-1" "a.f90" = .ok p
      ∧ (r.analyze .global p).1 = some e₀ ∧ ((r.analyze .global p).2.fold e₀).1 = e)
    ∧ e.text = "-9223372036854775808"
    ∧ ∀ p', Phrase.ofSource e.text "a.f90" ≠ .ok p'
  := by
  intro r e
  let word (start stop : Nat) : Span := ⟨"a.f90", start, stop⟩
  have herror : Phrase.ofSource e.text "a.f90"
      = .error (.error (.numberParseError "9223372036854775808") ⟨1, "a.f90"⟩) := by
    decide +kernel
  refine ⟨.initial .standard, ?_, by decide +kernel, ?_⟩
  · use .binary (.intrinsic .subtract)
      (.unary (.intrinsic .negate) (.integer 9223372036854775807 none (word 1 20)) (word 0 20))
      (.integer 1 none (word 21 22))
    use .binary .subtract (.unary .negate (.constant (.integer 9223372036854775807 4)))
      (.constant (.integer 1 4))
    decide +kernel
  · intro p' hp'
    rw [herror] at hp'
    cases hp'

end FortranScope.Session
