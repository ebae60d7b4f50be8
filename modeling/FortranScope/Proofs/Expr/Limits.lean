import FortranScope.Proofs.Expr.Folding
import FortranScope.Proofs.Integer.Exactness
import Mathlib.Order.Bounds.Defs

/-!
# Intrinsic functions at the limits

A function of integer constants is folded to its exact value, or it stays and the reason is
reported.  `max` and `min` always have a value, and `abs` has one unless the absolute value is out
of range.  `mod` goes with the quotient: where the quotient is out of range there is no remainder
either, although it would be `0`.
-/

namespace FortranScope

/-- Reports a warning where the phrase analysed last begins. -/
def Session.warn (r : Session) (cause : Cause) : Session :=
  { r with context := r.context.say (.warning cause r.position) }

namespace Expr

/-- A reference to an intrinsic function with constant arguments. -/
def call (f : Intrinsic) (args : List (Option String × Constant)) : Expr :=
  reference f.name none (.ofList (args.map fun arg => (arg.1, constant arg.2)))

variable {config : Config}

/-- Constant arguments are folded to themselves, without a warning. -/
theorem Args.fold_ofList_constants (args : List (Option String × Constant)) :
  (ofList (args.map fun arg => (arg.1, constant arg.2))).fold config
    = (ofList (args.map fun arg => (arg.1, constant arg.2)), [])
  := by
  induction args with
  | nil => rfl
  | cons arg args ih =>
    rw [List.map_cons, ofList, Args.fold, ih]
    rfl

/-- Arguments that are constants are known as such. -/
theorem Args.constants?_ofList_constants (args : List (Option String × Constant)) :
  (ofList (args.map fun arg => (arg.1, constant arg.2))).constants? = some args
  := by
  induction args with
  | nil => rfl
  | cons arg args ih =>
    rw [List.map_cons, ofList, constants?, ih]
    rfl

/-- A call with constant arguments is replaced as the function says. -/
theorem fold_call (f : Intrinsic) (args : List (Option String × Constant)) :
  (call f args).fold config = settle (call f args) [] (f.apply config args)
  := by
  have hname : Intrinsic.ofName? f.name = some f := by
    cases f <;> rfl
  rw [call, fold, Args.fold_ofList_constants]
  simp only [evaluateReference, hname, Args.constants?_ofList_constants]

end Expr

namespace Intrinsic

/-- Integers with their kinds and keywords as arguments. -/
def integers (args : List (Option String × Int × Int)) : List (Option String × Constant) :=
  args.map fun arg => (arg.1, .integer arg.2.1 arg.2.2)

/-- The values of integer arguments are all there. -/
theorem mapM_integer?_integers (args : List (Option String × Int × Int)) :
  ((integers args).map Prod.snd).mapM Constant.integer? = some (args.map fun arg => arg.2.1)
  := by
  induction args with
  | nil => rfl
  | cons arg args ih =>
    rw [integers] at ih ⊢
    simp only [List.map_cons, List.mapM_cons, ih]
    rfl

/-- The kinds of integer arguments are those given. -/
theorem map_kind_integers (args : List (Option String × Int × Int)) :
  ((integers args).map Prod.snd).map Constant.kind = args.map fun arg => arg.2.2
  := by
  simp only [integers, List.map_map]
  rfl

/-- Some integers always have an extreme. -/
theorem exists_applyExtreme_integers {choose : Int → Int → Int} {find : List Int → Option Int}
    (hfind : ∀ n ns, find (n :: ns) = some (ns.foldl choose n))
    {args : List (Option String × Int × Int)} (hargs : args ≠ []) :
  ∃ n k, applyExtreme choose ((integers args).map Prod.snd) = .value (.integer n k)
    ∧ find (args.map fun arg => arg.2.1) = some n ∧ (args.map fun arg => arg.2.2).max? = some k
  := by
  cases args with
  | nil => contradiction
  | cons arg args =>
    use (args.map fun arg => arg.2.1).foldl choose arg.2.1,
      (args.map fun arg => arg.2.2).foldl Max.max arg.2.2
    refine ⟨?_, ?_, ?_⟩
    · simp only [applyExtreme, mapM_integer?_integers, map_kind_integers, List.map_cons]
    · rw [List.map_cons, hfind]
    · rw [List.map_cons, List.max?_cons']

theorem apply_mod (config : Config) (a ka p kp : Int) :
  mod.apply config [(none, .integer a ka), (none, .integer p kp)]
    = .ofInteger ka (Integer.remainder a p)
  := rfl

theorem apply_abs (config : Config) (keyword : Option String) (n k : Int) :
  abs.apply config [(keyword, .integer n k)] = .ofInteger k (Integer.fit n.natAbs)
  := rfl

end Intrinsic

namespace Session

variable (r : Session)

/-- A call with a value is folded to it, and nothing is reported. -/
theorem fold_call_of_value {f : Intrinsic} {args : List (Option String × Constant)} {c : Constant}
    (h : f.apply r.context.config args = .value c) :
  r.fold (.call f args) = (.constant c, r)
  := by
  rw [fold, Expr.fold_call, h, Expr.settle, List.map_nil, List.append_nil]

/-- A call that fails stays, with one warning. -/
theorem fold_call_of_failed {f : Intrinsic} {args : List (Option String × Constant)}
    {cause : Cause} (h : f.apply r.context.config args = .failed cause) :
  r.fold (.call f args) = (.call f args, r.warn cause)
  := by
  rw [fold, Expr.fold_call, h, Expr.settle]
  rfl

/-- The remainder is exact wherever there is a quotient. -/
theorem fold_mod {a p : Int} (ha : Integer.Fits .value a) (ka kp : Int) :
  let call := Expr.call .mod [(none, .integer a ka), (none, .integer p kp)]
  (p = 0 → r.fold call = (call, r.warn .divisionByZero))
    ∧ (a = -Integer.Width.value.limit ∧ p = -1 → r.fold call = (call, r.warn .integerOverflow))
    ∧ (p ≠ 0 → ¬ (a = -Integer.Width.value.limit ∧ p = -1) →
      r.fold call = (.constant (.integer (a - p * a.tdiv p) ka), r))
  := by
  refine ⟨?_, ?_, ?_⟩
  · rintro rfl
    apply r.fold_call_of_failed
    rfl
  · rintro ⟨rfl, rfl⟩
    apply r.fold_call_of_failed
    rw [Intrinsic.apply_mod, Integer.remainder_least, Evaluation.ofInteger]
  · intro hp h
    apply r.fold_call_of_value
    rw [Intrinsic.apply_mod, Integer.remainder_of_ne_zero ha hp h, Evaluation.ofInteger]

/-- `abs` is folded, unless the absolute value is no value; then a warning says so. -/
theorem fold_abs (keyword : Option String) (n k : Int) :
  let call := Expr.call .abs [(keyword, .integer n k)]
  (Integer.Fits .value n.natAbs → r.fold call = (.constant (.integer n.natAbs k), r))
    ∧ (¬ Integer.Fits .value n.natAbs → r.fold call = (call, r.warn .integerOverflow))
  := by
  constructor
  · intro h
    apply r.fold_call_of_value
    rw [Intrinsic.apply_abs, Integer.fit_of_fits h, Evaluation.ofInteger]
  · intro h
    apply r.fold_call_of_failed
    rw [Intrinsic.apply_abs, Integer.fit_of_not_fits h, Evaluation.ofInteger]

section

variable {args : List (Option String × Int × Int)} (hargs : args ≠ [])

include hargs

/-- `max` is folded to the greatest argument in the greatest kind. -/
theorem fold_max :
  ∃ n k, IsGreatest {m | m ∈ args.map fun arg => arg.2.1} n
    ∧ IsGreatest {l | l ∈ args.map fun arg => arg.2.2} k
    ∧ r.fold (.call .max (Intrinsic.integers args)) = (.constant (.integer n k), r)
  := by
  obtain ⟨n, k, hvalue, hn, hk⟩ :=
    Intrinsic.exists_applyExtreme_integers (fun _ _ => List.max?_cons') hargs
  exact ⟨n, k, List.max?_eq_some_iff.mp hn, List.max?_eq_some_iff.mp hk,
    r.fold_call_of_value hvalue⟩

/-- `min` is folded to the least argument in the greatest kind. -/
theorem fold_min :
  ∃ n k, IsLeast {m | m ∈ args.map fun arg => arg.2.1} n
    ∧ IsGreatest {l | l ∈ args.map fun arg => arg.2.2} k
    ∧ r.fold (.call .min (Intrinsic.integers args)) = (.constant (.integer n k), r)
  := by
  obtain ⟨n, k, hvalue, hn, hk⟩ :=
    Intrinsic.exists_applyExtreme_integers (fun _ _ => List.min?_cons') hargs
  exact ⟨n, k, List.min?_eq_some_iff.mp hn, List.max?_eq_some_iff.mp hk,
    r.fold_call_of_value hvalue⟩

end

/-- Functions of integers give exact values at the limits, and otherwise they stay with one
warning.  Only the remainder of the least value by `-1` stays although it would be a value. -/
theorem fold_call_atLimits :
  (∀ a ka p kp : Int, Integer.Fits .value a → Integer.Fits .value p →
      let call := Expr.call .mod [(none, .integer a ka), (none, .integer p kp)]
      (p = 0 → r.fold call = (call, r.warn .divisionByZero))
        ∧ (a = -Integer.Width.value.limit ∧ p = -1 →
          r.fold call = (call, r.warn .integerOverflow))
        ∧ (p ≠ 0 → ¬ (a = -Integer.Width.value.limit ∧ p = -1) →
          r.fold call = (.constant (.integer (a - p * a.tdiv p) ka), r)))
    ∧ (∀ (keyword : Option String) (n k : Int),
      let call := Expr.call .abs [(keyword, .integer n k)]
      (Integer.Fits .value n.natAbs → r.fold call = (.constant (.integer n.natAbs k), r))
        ∧ (¬ Integer.Fits .value n.natAbs → r.fold call = (call, r.warn .integerOverflow)))
    ∧ ∀ args : List (Option String × Int × Int), args ≠ [] →
      (∃ n k, IsGreatest {m | m ∈ args.map fun arg => arg.2.1} n
        ∧ IsGreatest {l | l ∈ args.map fun arg => arg.2.2} k
        ∧ r.fold (.call .max (Intrinsic.integers args)) = (.constant (.integer n k), r))
      ∧ ∃ n k, IsLeast {m | m ∈ args.map fun arg => arg.2.1} n
        ∧ IsGreatest {l | l ∈ args.map fun arg => arg.2.2} k
        ∧ r.fold (.call .min (Intrinsic.integers args)) = (.constant (.integer n k), r)
  := by
  refine ⟨?_, ?_, ?_⟩
  · intro a ka p kp ha _
    apply r.fold_mod ha
  · apply r.fold_abs
  · intro args hargs
    exact ⟨r.fold_max hargs, r.fold_min hargs⟩

/-- The least value by `2`, its absolute value, and two integers of different kinds. -/
theorem fold_call_atLimits_least :
  let r := initial .standard
  let least := -Integer.Width.value.limit
  let halved := Expr.call .mod [(none, .integer least 4), (none, .integer 2 8)]
  let absolute := Expr.call .abs [(none, .integer least 4)]
  let args : List (Option String × Int × Int) := [(none, least, 8), (some "a2", 7, 4)]
  Integer.Fits .value least ∧ Integer.Fits .value 2 ∧ ¬ Integer.Fits .value least.natAbs
    ∧ args ≠ []
    ∧ r.fold halved = (.constant (.integer (least - 2 * least.tdiv 2) 4), r)
    ∧ r.fold absolute = (absolute, r.warn .integerOverflow)
    ∧ ∃ n k, IsLeast {m | m ∈ args.map fun arg => arg.2.1} n
      ∧ IsGreatest {l | l ∈ args.map fun arg => arg.2.2} k
      ∧ r.fold (.call .min (Intrinsic.integers args)) = (.constant (.integer n k), r)
  := by
  intro r least halved absolute args
  have hleast : Integer.Fits .value least := by decide
  have habs : ¬ Integer.Fits .value least.natAbs := by decide
  have hargs : args ≠ [] := by decide
  obtain ⟨hmod, habsolute, hextreme⟩ := fold_call_atLimits r
  exact ⟨hleast, by decide, habs, hargs,
    (hmod least 4 2 8 hleast (by decide)).2.2 (by decide) (by decide),
    (habsolute none least 4).2 habs, (hextreme args hargs).2⟩

/-- The least value is a multiple of `-1`, but the remainder is left as out of range. -/
theorem not_fold_mod_exact :
  let r := initial .standard
  let least := -Integer.Width.value.limit
  let call := Expr.call .mod [(none, .integer least 4), (none, .integer (-1) 4)]
  let exact := least - -1 * least.tdiv (-1)
  Integer.Fits .value least ∧ Integer.Fits .value (-1) ∧ Integer.Fits .value exact
    ∧ ¬ r.fold call = (.constant (.integer exact 4), r)
    ∧ r.fold call = (call, r.warn .integerOverflow)
  := by
  decide +kernel

end Session

end FortranScope
