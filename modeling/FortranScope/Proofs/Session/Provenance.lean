import FortranScope.Proofs.Expr.Faults
import FortranScope.Proofs.Expr.Vocabulary
import FortranScope.Proofs.Tree.Persistence

/-!
# Sessions that come from source text

`Session.OfSource` holds of the sessions in whose declarations every deferred expression was read
from source text, be it still pending or settled by then.  In such a session everything deferred
is legible, and so are the constants that it names.
-/

namespace FortranScope

/-! ## Given expressions -/

/-- The deferred expression of an extent. -/
def Extent.given (e : Extent) : List Deferred := e.explicit?.toList

/-- The deferred expressions of a declaration. -/
def Details.given (D : Details) : List Deferred :=
  D.init?.toList ++ D.shape.flatMap fun dimension => dimension.lower.given ++ dimension.upper.given

/-- The deferred expressions that an operation puts into the tree. -/
def Tree.Operation.given : Tree.Operation → List Deferred
  | declare _ _ details => details.given
  | setDetails _ details => details.given
  | addParam _ _ value => value.given
  | _ => []

/-- The deferred expressions that an operation puts into the session. -/
def Session.Operation.given : Session.Operation → List Deferred
  | onTree o => o.given
  | _ => []

mutual

/-- The session is developed by operations that are given only what was read from source
text. -/
inductive Session.OfSource : Session → Prop
  | initial (config : Config) : Session.OfSource (.initial config)
  | step {r : Session} (o : Session.Operation) (hr : Session.OfSource r)
    (ho : ∀ d ∈ o.given, Deferred.OfSource d) : Session.OfSource (o.apply r)

/-- The deferred expression was read from source text, and was then perhaps settled. -/
inductive Deferred.OfSource : Deferred → Prop
  | empty : Deferred.OfSource .empty
  | pending {source file : String} {p : Phrase} (h : Phrase.ofSource source file = .ok p) :
    Deferred.OfSource (.pending p)
  | settle {r : Session} {d : Deferred} (hr : Session.OfSource r) (s : ScopeId)
    (hd : Deferred.OfSource d) : Deferred.OfSource (r.settle s d).1

end

/-- A session whose expressions come from sources stays one if those that it is given do. -/
theorem Session.OfSource.run {r : Session} (hr : r.OfSource) {operations : List Operation}
    (h : ∀ d ∈ operations.flatMap Operation.given, Deferred.OfSource d) :
  (r.run operations).OfSource
  := by
  induction operations generalizing r with
  | nil => apply hr
  | cons o rest ih =>
    rw [List.flatMap_cons] at h
    obtain ⟨ho, hrest⟩ := List.forall_mem_append.mp h
    apply ih (hr.step o ho) hrest

/-! ## Properties of given expressions -/

section

variable {Q : Deferred → Prop}

theorem Extent.holds_of_given {e : Extent} (h : ∀ d ∈ e.given, Q d) :
  e.Holds Q
  := fun d hd => h d (Option.mem_toList.mpr hd)

/-- A declaration has a property if what it is given with has it. -/
theorem Details.holds_of_given {D : Details} (h : ∀ d ∈ D.given, Q d) :
  D.Holds Q
  := by
  obtain ⟨hinit, hshape⟩ := List.forall_mem_append.mp h
  constructor
  · intro d hd
    apply hinit d (Option.mem_toList.mpr hd)
  · intro dimension hdimension
    have hbounds : ∀ d ∈ dimension.lower.given ++ dimension.upper.given, Q d := by
      intro d hd
      apply hshape d (List.mem_flatMap.mpr ⟨dimension, hdimension, hd⟩)
    obtain ⟨hlower, hupper⟩ := List.forall_mem_append.mp hbounds
    exact ⟨Extent.holds_of_given hlower, Extent.holds_of_given hupper⟩

namespace Tree

variable {t : Tree}

/-- The initial tree has no expressions. -/
theorem holds_initial :
  initial.Holds Q
  := by
  rintro (⟨x, place⟩ | ⟨d, position⟩) d hd
  · cases place <;> contradiction
  · contradiction

namespace Holds

variable (h : t.Holds Q)

include h

/-- A change of a symbol that keeps its details does not matter. -/
theorem modifySymbol (x : SymbolId) {f : Symbol → Symbol}
    (hf : ∀ y, (f y).details = y.details) :
  (t.modifySymbol x f).Holds Q
  := by
  obtain ⟨hdetails, hparams⟩ := holds_iff.mp h
  refine holds_iff.mpr ⟨?_, hparams⟩
  intro y
  rw [field_modifySymbol Symbol.details hf]
  apply hdetails

/-- A change of a spec does not matter if it keeps the property for the parameter values. -/
theorem modifySpec (d : SpecId) {f : DerivedTypeSpec → DerivedTypeSpec}
    (hf : ∀ e, e.Holds Q → (f e).Holds Q) :
  (t.modifySpec d f).Holds Q
  := by
  obtain ⟨hdetails, hparams⟩ := holds_iff.mp h
  refine holds_iff.mpr ⟨hdetails, ?_⟩
  intro e
  rw [spec_modifySpec]
  split
  · apply hf _ (hparams e)
  · apply hparams

/-- A declaration brings its own deferred expressions, and no other symbol changes. -/
theorem enter (s : ScopeId) (name : Name) {details : Details} (hdetails : details.Holds Q) :
  (t.enter s name details).Holds Q
  := by
  obtain ⟨hold, hparams⟩ := holds_iff.mp h
  refine holds_iff.mpr ⟨?_, hparams⟩
  intro x
  rw [symbol_enter]
  split
  · apply hdetails
  · apply hold

/-- A spec without parameter values has no deferred expressions. -/
theorem push_spec {e : DerivedTypeSpec} (he : e.params = []) :
  Tree.Holds Q { t with specs := t.specs.push e }
  := by
  obtain ⟨hdetails, hparams⟩ := holds_iff.mp h
  refine holds_iff.mpr ⟨hdetails, ?_⟩
  intro d
  rw [spec_push]
  split
  · intro param hparam
    rw [he] at hparam
    contradiction
  · apply hparams

/-- A parameter value with the property may be added. -/
theorem addParam (d : SpecId) (name : Option String) {value : Extent} (hvalue : value.Holds Q) :
  (t.addParam d name value).Holds Q
  := by
  apply h.modifySpec
  intro e he param hparam
  rcases List.mem_append.mp hparam with hold | hnew
  · apply he param hold
  · obtain rfl := List.mem_singleton.mp hnew
    apply hvalue

/-- A write puts no deferred expressions into the tree but those that the operation is given. -/
theorem write {t' : Tree} {o : Operation} (ho : ∀ d ∈ o.given, Q d) (hwrite : o.Writes t t') :
  t'.Holds Q
  := by
  cases hwrite with
  | enter => apply h.enter _ _ (Details.holds_of_given ho)
  | setDetails => apply h.setDetails _ (Details.holds_of_given ho)
  | addParam => apply h.addParam _ _ (Extent.holds_of_given ho)
  | makeSpec => apply h.push_spec rfl
  | bindSpec => exact h.modifySpec _ fun e he => he
  | introduce | find | findSymbol | findAround | remove | addAttr | removeAttr =>
    exact h.modifySymbol _ fun y => rfl
  -- deferred expressions are no part of scopes
  | nest | erase | setImport | addImportName | addSubmodule | listSpec | addRange => exact h

/-- What holds of the deferred expressions in the tree and of those that an operation is given
holds of those in the tree afterwards. -/
theorem apply (o : Operation) (ho : ∀ d ∈ o.given, Q d) :
  (o.apply t).Holds Q
  := by
  apply Operation.apply_induction h
  intro u v hwrite hu
  apply hu.write ho hwrite

end Holds

end Tree

end

/-! ## Legible expressions -/

/-- What the expression is analysed from is legible, and so is the constant that it is resolved
to. -/
def Deferred.Legible : Deferred → Prop
  | pending phrase => phrase.Legible
  | resolved e => ∀ c, e.constant? = some c → c.Legible
  | _ => True

/-- The constants of a tree are values of deferred expressions. -/
theorem Context.legibleConstants_of_holds {c : Context} (h : c.tree.Holds Deferred.Legible) :
  c.LegibleConstants
  := by
  intro x constant hconstant
  obtain ⟨-, details, hdetails, hinit⟩ := Symbol.namedConstant?_eq_some_iff.mp hconstant
  have hlegible := ((Tree.holds_iff.mp h).1 x).1
  rw [hdetails] at hlegible
  apply hlegible _ hinit constant rfl

namespace Session

/-- Where named constants are legible, a legible expression is settled to a legible one. -/
theorem legible_settle {r : Session} (h : r.context.LegibleConstants) (s : ScopeId) {d : Deferred}
    (hd : d.Legible) :
  (r.settle s d).1.Legible
  := by
  cases d with
  | empty | failed => trivial
  | resolved e => apply hd
  | pending phrase =>
    rw [settle]
    split
    · trivial
    · next e next heq =>
      have hresult : (r.context.analysis s phrase).result = some e := congrArg Prod.fst heq
      intro c hc
      exact (Context.in_fold_of_analysis h hd hresult next.context.config).constant? hc

end Session

/-- The constants that an expression is settled with stand in the tree, so what holds of all cells
is an invariant by itself. -/
theorem Pass.maintains_legible :
  Maintains (fun p => p.tree.Holds Deferred.Legible) Deferred.Legible
  := by
  constructor
  · intro p s d hp hd
    rw [settle]
    split
    · apply Session.legible_settle (Context.legibleConstants_of_holds hp) s hd
    · apply hd
  · intro p q hp hextends
    obtain ⟨gained, hgains⟩ := hextends.tree
    apply hp.of_gains hgains
  · intro p x D hp hD
    apply hp.setDetails x hD
  · intro p d params hp hparams
    apply hp.setParams d hparams

namespace Session

/-- Operations keep expressions legible if those that they are given are. -/
theorem holds_legible_apply {r : Session} (h : r.context.tree.Holds Deferred.Legible)
    {o : Operation} (ho : ∀ d ∈ o.given, d.Legible) :
  (o.apply r).context.tree.Holds Deferred.Legible
  := by
  cases o with
  | onTree o => apply h.apply o ho
  | say d => apply h
  | analyze s phrase =>
    obtain ⟨gained, hgains⟩ := (r.extends_analyze s phrase).tree
    apply h.of_gains hgains
  | fold e => apply h
  | resolve =>
    rw [Operation.apply, resolve_eq]
    apply (Pass.maintains_legible.foldl (p := ⟨r, .zero⟩) h h _).2

end Session

mutual

/-- Everything deferred in a session that comes from source text is legible. -/
theorem Session.OfSource.holds_legible {r : Session} (hr : r.OfSource) :
  r.context.tree.Holds Deferred.Legible
  := by
  match hr with
  | .initial config => exact Tree.holds_initial
  | .step o hr ho =>
    exact Session.holds_legible_apply hr.holds_legible fun d hd => (ho d hd).legible

/-- Expressions that come from a source are legible. -/
theorem Deferred.OfSource.legible {d : Deferred} (hd : d.OfSource) :
  d.Legible
  := by
  match hd with
  | .empty => trivial
  | .pending h => exact Phrase.legible_of_ofSource h
  | .settle hr s hd =>
    exact Session.legible_settle (Context.legibleConstants_of_holds hr.holds_legible) s hd.legible

end

end FortranScope
