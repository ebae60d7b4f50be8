import FortranScope.Defect
import FortranScope.Id

/-!
# Guarded computations

A `Guarded` computation takes nothing for granted: it is aborted where it asks for a record that
does not exist, where a condition on an operation does not hold and where arithmetic that is not
checked leaves the range of its integers, and it need not come to an end.  `Guarded.Ends` says that
it does come to an end and is not aborted.
-/

namespace FortranScope

/-- Why a computation is aborted. -/
inductive Abort where
  | defect (d : Defect)
  | noScope (s : ScopeId)
  | noSymbol (x : SymbolId)
  | noSpec (d : SpecId)
  | arithmetic
deriving DecidableEq

/-- A computation on a state, which may be aborted and need not end. -/
abbrev Guarded (σ α : Type) := StateT σ (ExceptT Abort Option) α

namespace Guarded

variable {σ τ α β : Type}

/-- The computation comes to an end with the result `a` and the state `later`. -/
def Ends (g : Guarded σ α) (state : σ) (a : α) (later : σ) : Prop :=
  (g.run state).run = some (.ok (a, later))

/-- The computation is aborted. -/
def Aborts (g : Guarded σ α) (state : σ) (abort : Abort) : Prop :=
  (g.run state).run = some (.error abort)

/-- Goes on only if the condition holds. -/
def check (p : Prop) [Decidable p] (abort : Abort) : Guarded σ Unit :=
  if p then pure () else throw abort

/-- A computation on a part of the state, which `get` reads and `set` replaces. -/
def within (get : τ → σ) (set : τ → σ → τ) (g : Guarded σ α) : Guarded τ α := fun state => do
  let outcome ← g.run (get state)
  pure (outcome.1, set state outcome.2)

/-- Giving a value at once comes to an end, in the same state. -/
theorem ends_pure (a : α) (state : σ) :
  (pure a : Guarded σ α).Ends state a state
  := rfl

theorem aborts_throw (abort : Abort) (state : σ) :
  (throw abort : Guarded σ α).Aborts state abort
  := rfl

theorem ends_get (state : σ) :
  (get : Guarded σ σ).Ends state state state
  := rfl

/-- Changing the state comes to an end, in the changed one. -/
theorem ends_modify (f : σ → σ) (state : σ) :
  (modify f : Guarded σ Unit).Ends state () (f state)
  := rfl

/-- A condition that holds does not abort a computation. -/
theorem ends_check {p : Prop} [Decidable p] (h : p) (abort : Abort) (state : σ) :
  (check p abort).Ends state () state
  := by
  rw [check, if_pos h]
  apply ends_pure

section

variable {g : Guarded σ α} {next : α → Guarded σ β} {state later : σ} {a : α}

/-- One computation after the other. -/
theorem Ends.run_bind (hg : g.Ends state a later) (next : α → Guarded σ β) :
  ((g >>= next).run state).run = ((next a).run later).run
  := by
  rw [Ends, ExceptT.run] at hg
  rw [StateT.run_bind, ExceptT.run_bind]
  simp only [ExceptT.run]
  rw [hg]
  rfl

/-- If the first computation comes to an end and the next one does so from there, both do together.
-/
theorem Ends.bind {b : β} {last : σ} (hg : g.Ends state a later)
    (hnext : (next a).Ends later b last) :
  (g >>= next).Ends state b last
  := (hg.run_bind next).trans hnext

/-- A computation is aborted where its second part is, once the first has come to an end. -/
theorem Ends.bind_aborts {abort : Abort} (hg : g.Ends state a later)
    (hnext : (next a).Aborts later abort) :
  (g >>= next).Aborts state abort
  := (hg.run_bind next).trans hnext

end

/-- A computation on a part of the state comes to an end if it does on the part alone, and replaces
only that part. -/
theorem Ends.within {g : Guarded σ α} {get : τ → σ} {set : τ → σ → τ} {state : τ} {a : α}
    {later : σ} (h : g.Ends (get state) a later) :
  (g.within get set).Ends state a (set state later)
  := by
  rw [Ends, ExceptT.run] at h
  change (g.run (get state) >>= fun outcome => pure (outcome.1, set state outcome.2)).run = _
  rw [ExceptT.run_bind]
  simp only [ExceptT.run]
  rw [h]
  rfl

end Guarded

end FortranScope
