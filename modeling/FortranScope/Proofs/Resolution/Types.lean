import FortranScope.Proofs.Expr.Typing
import FortranScope.Proofs.Resolution.Constants

/-!
# Types of named constants

A resolution gives a named constant the type that its initial value comes to, whatever type and
rank it is declared with.  The types of initial values can be read off the declarations before
them, so whether constants are what they are declared to be is a matter of each declaration with
its initial value.
-/

namespace FortranScope

/-! ## One initial value -/

/-- A phrase is settled to a constant only if it comes to that. -/
theorem Session.value?_of_settle {r : Session} {s : ScopeId} {p : Phrase} {d : Constant}
    (h : (r.settle s (.pending p)).1 = .resolved (.constant d)) :
  r.context.value? s p = some d
  := by
  rw [settle] at h
  split at h
  · cases h
  · next e next heq =>
    have hresult : (r.context.analysis s p).result = some e := congrArg Prod.fst heq
    obtain rfl : (r.analyze s p).2 = next := congrArg Prod.snd heq
    have hfold : (e.fold r.context.config).1 = .constant d := Deferred.resolved.inj h
    rw [Context.value?, hresult, Option.bind_some, hfold]
    rfl

namespace Tree

variable {t t' : Tree} {x : SymbolId} {d : Constant} {p : Phrase}

/-- A named constant has a value exactly if its initial value is resolved to that. -/
theorem namedConstant?_eq_some_iff :
  (t.symbol x).namedConstant? = some d ↔ (t.symbol x).IsNamedConstant
    ∧ t.cell? (.declaration x .init) = some (.resolved (.constant d))
  := by
  constructor
  · intro h
    obtain ⟨hattr, details, hdetails, hinit⟩ := Symbol.namedConstant?_eq_some_iff.mp h
    refine ⟨⟨decide_eq_true hattr, details, hdetails⟩, ?_⟩
    rw [cell?, hdetails]
    apply hinit
  · rintro ⟨hconstant, hcell⟩
    apply Symbol.namedConstant?_eq_some hconstant hcell

/-- What a symbol names depends on its outline and its initial value. -/
theorem namedConstant?_congr (houtline : t'.outline = t.outline)
    (hcell : t'.cell? (.declaration x .init) = t.cell? (.declaration x .init)) :
  (t'.symbol x).namedConstant? = (t.symbol x).namedConstant?
  := by
  have hsymbol := outline_symbol_eq_of_outline_eq houtline x
  ext d
  rw [namedConstant?_eq_some_iff, namedConstant?_eq_some_iff, hcell]
  constructor
  · rintro ⟨hconstant, hinit⟩
    exact ⟨hconstant.of_outline_eq hsymbol.symm, hinit⟩
  · rintro ⟨hconstant, hinit⟩
    exact ⟨hconstant.of_outline_eq hsymbol, hinit⟩

/-- A named constant exists. -/
theorem hasSymbol_of_isNamedConstant (h : (t.symbol x).IsNamedConstant) :
  t.HasSymbol x
  := by
  obtain ⟨-, details, hdetails⟩ := h
  by_contra hx
  rw [symbol_eq_default hx] at hdetails
  cases hdetails

/-- A constant whose initial value is pending names no value yet. -/
theorem Initializes.namedConstant? (h : t.Initializes x p) :
  (t.symbol x).namedConstant? = none
  := by
  rw [Option.eq_none_iff_forall_ne_some]
  intro d hd
  obtain ⟨-, hcell⟩ := namedConstant?_eq_some_iff.mp hd
  cases h.2.symm.trans hcell

end Tree

namespace Pass

section

variable {A : Cell → Prop} {p q : Pass} {x : SymbolId}

/-- A named constant keeps its value. -/
theorem Settles.namedConstant? (h : p.Settles A q) {d : Constant}
    (hd : (p.tree.symbol x).namedConstant? = some d) :
  (q.tree.symbol x).namedConstant? = some d
  := by
  rw [← hd]
  apply Tree.namedConstant?_congr h.outline
  apply h.cell?_of_settled
  rintro ⟨other, hother, hunresolved⟩
  cases (Tree.namedConstant?_eq_some_iff.mp hd).2.symm.trans hother
  contradiction

/-- An initial value that is still to be analysed was so before. -/
theorem Settles.initializes (h : p.Settles A q) {phrase : Phrase}
    (hx : q.tree.Initializes x phrase) :
  p.tree.Initializes x phrase
  := by
  obtain ⟨hconstant, hcell⟩ := hx
  use hconstant.of_outline_eq (Tree.outline_symbol_eq_of_outline_eq h.outline x).symm
  rw [← hcell]
  symm
  apply h.cell?_of_unresolved ⟨_, hcell, rfl⟩

end

/-- The pass in which the initial value of `x` is analysed. -/
def hidden (p : Pass) (x : SymbolId) : Pass := (p.resolveType x).withDetails x .unknown

section

variable {p : Pass} {x z : SymbolId} {d : Constant}

/-- What an initial value is settled to where the details of its symbol are hidden. -/
theorem settle_hidden (hx : (p.tree.symbol x).IsNamedConstant) {init outcome : Deferred}
    (hinit : p.tree.cell? (.declaration x .init) = some init)
    (houtcome : (p.resolveSymbol x).tree.cell? (.declaration x .init) = some outcome) :
  ((p.hidden x).settle (p.tree.symbol x).owner init).1 = outcome
  := by
  have htype := p.settles_resolveType_parameters x
  have hx' := hx.of_outline_eq (Tree.outline_symbol_eq_of_outline_eq htype.outline x)
  have hinit' : (p.resolveType x).tree.cell? (.declaration x .init) = some init := by
    rw [htype.cell?_of_not (by simp), hinit]
  rw [resolveSymbol, cell?_resolveDetails hx' hinit',
    Tree.owner_eq_of_outline_eq htype.outline] at houtcome
  exact Option.some.inj houtcome

/-- A symbol that becomes a named constant does so by its own initial value. -/
theorem namedConstant?_resolveSymbol
    (hd : ((p.resolveSymbol z).tree.symbol x).namedConstant? = some d) :
  (p.tree.symbol x).namedConstant? = some d ∨ x = z ∧ ∃ phrase, p.tree.Initializes x phrase
    ∧ (p.hidden x).session.context.value? (p.tree.symbol x).owner phrase = some d
  := by
  have hsettles := p.settles_resolveSymbol z
  obtain ⟨hconstant, hcell⟩ := Tree.namedConstant?_eq_some_iff.mp hd
  have hconstant' : (p.tree.symbol x).IsNamedConstant :=
    hconstant.of_outline_eq (Tree.outline_symbol_eq_of_outline_eq hsettles.outline x).symm
  by_cases hunresolved : p.tree.Unresolved (.declaration x .init)
  · right
    obtain ⟨init, hinit, hpending⟩ := hunresolved
    obtain rfl : x = z := by
      by_contra hne
      rw [hsettles.cell?_of_not (c := .declaration x .init) hne] at hcell
      cases hcell.symm.trans hinit
      contradiction
    use rfl
    have hsettled := settle_hidden hconstant' hinit hcell
    cases init with
    | pending phrase => exact ⟨phrase, ⟨hconstant', hinit⟩, Session.value?_of_settle hsettled⟩
    | empty => cases hsettled
    | failed | resolved => cases hpending
  · left
    rw [← hd]
    symm
    apply Tree.namedConstant?_congr hsettles.outline (hsettles.cell?_of_settled hunresolved)

/-- What is a named constant while the details of `x` are hidden was one before. -/
theorem namedConstant?_of_hidden {y : SymbolId}
    (hd : ((p.hidden x).tree.symbol y).namedConstant? = some d) :
  (p.tree.symbol y).namedConstant? = some d
  := by
  have htype := p.settles_resolveType_parameters x
  change ((Tree.setDetails _ x .unknown).symbol y).namedConstant? = _ at hd
  rw [Tree.symbol_setDetails] at hd
  split at hd
  · cases hd
  · rw [← hd]
    symm
    apply Tree.namedConstant?_congr htype.outline (htype.cell?_of_not (by simp))

/-- Where the initial value of `x` is analysed, names stand for constants that they stand for in
the end.  So if these are declared with their types, that holds here. -/
theorem typedIn_hidden {q : Pass} {A : Cell → Prop} (h : p.Settles A q)
    (hx : (p.tree.symbol x).IsNamedConstant) {s : ScopeId}
    (htyped : ∀ text y d, q.tree.denoted? s text = some y →
      (p.tree.symbol y).namedConstant? = some d →
      (q.tree.symbol y).scalarType? = some d.type) :
  Context.TypedIn s (p.hidden x).session.context q.session.context
  := by
  have htype := p.settles_resolveType_parameters x
  have hx' := hx.of_outline_eq (Tree.outline_symbol_eq_of_outline_eq htype.outline x)
  have hdenoted (text : String) :
      q.tree.denoted? s text = (p.hidden x).tree.denoted? s text := by
    rw [hidden, denoted?_withDetails hx', Tree.denoted?_eq_of_outline_eq htype.outline,
      Tree.denoted?_eq_of_outline_eq h.outline]
  constructor
  · exact h.config.trans htype.config.symm
  · apply hdenoted
  · intro text y d hy hd
    have hd' := namedConstant?_of_hidden hd
    exact ⟨h.namedConstant? hd', htyped text y d ((hdenoted text).trans hy) hd'⟩

/-- A named constant has its value from the start, or gets it when the pass comes to it. -/
theorem namedConstant?_foldl {xs : List SymbolId}
    (hd : ((xs.foldl resolveSymbol p).tree.symbol x).namedConstant? = some d) :
  (p.tree.symbol x).namedConstant? = some d ∨ ∃ before after phrase, xs = before ++ after
    ∧ (before.foldl resolveSymbol p).tree.Initializes x phrase
    ∧ ((before.foldl resolveSymbol p).hidden x).session.context.value? (p.tree.symbol x).owner
      phrase = some d
  := by
  induction xs using List.reverseRecOn with
  | nil => exact .inl hd
  | append_singleton xs z ih =>
    rw [List.foldl_append] at hd
    rcases namedConstant?_resolveSymbol hd with hd | ⟨rfl, phrase, hinit, hvalue⟩
    · rcases ih hd with hd | ⟨before, after, phrase, rfl, hbefore⟩
      · exact .inl hd
      · exact .inr ⟨before, after ++ [z], phrase, List.append_assoc .., hbefore⟩
    · rw [Tree.owner_eq_of_outline_eq (p.settles_foldl xs).outline] at hvalue
      exact .inr ⟨xs, [x], phrase, rfl, hinit, hvalue⟩

end

end Pass

/-! ## All named constants -/

/-- A declaration that gives a constant its rank and type does so without its expressions. -/
theorem Symbol.admits_of_outline_eq {x x' : Symbol} {d : Constant} (h : x'.outline = x.outline)
    (hx : ∃ details, x.details = .object details ∧ details.Admits d) :
  ∃ details, x'.details = .object details ∧ details.Admits d
  := by
  obtain ⟨details, hdetails, hscalar, htype⟩ := hx
  have houtline : x'.details.outline = x.details.outline := congrArg Symbol.details h
  rw [hdetails] at houtline
  cases hdetails' : x'.details with
  | object details' =>
    rw [hdetails'] at houtline
    obtain ⟨htype', -, hshape⟩ := ObjectDetails.mk.inj (Details.object.inj houtline)
    refine ⟨details', rfl, ?_, ?_⟩
    · rw [hscalar] at hshape
      apply List.map_eq_nil_iff.mp hshape
    · rw [htype']
      apply htype
  | _ =>
    rw [hdetails'] at houtline
    cases houtline

/-- A named constant that keeps its value keeps the type that it is declared with. -/
theorem Symbol.scalarType?_of_outline_eq {x x' : Symbol} {d : Constant}
    (h : x'.outline = x.outline) (hd : x.namedConstant? = some d)
    (hd' : x'.namedConstant? = some d) (hx : x.scalarType? = some d.type) :
  x'.scalarType? = some d.type
  := by
  rw [scalarType?_eq_iff hd']
  apply admits_of_outline_eq h ((scalarType?_eq_iff hd).mp hx)

/-- If the symbol `x` has a name and comes to a constant, then it is declared as a scalar and, if
it is declared with an intrinsic type, its initial value `p` has this type by declaration. -/
def Context.Conforms (c : Context) (x : SymbolId) (p : Phrase) : Prop :=
  ∀ s text d, c.tree.denoted? s text = some x → (c.tree.symbol x).namedConstant? = some d →
    ∃ details, (c.tree.symbol x).details = .object details ∧ details.shape = []
      ∧ ∀ type, details.type = some (.intrinsic type) →
        c.typeOf? (c.tree.symbol x).owner p = some type.scalar

/-- A scalar conforms if its initial value has the intrinsic type that it is declared with. -/
theorem Context.conforms_of_intrinsic {c : Context} {x : SymbolId} {p : Phrase}
    {type : IntrinsicType} {init : Option Deferred}
    (hdetails : (c.tree.symbol x).details = .object ⟨some (.intrinsic type), init, []⟩)
    (htype : c.typeOf? (c.tree.symbol x).owner p = some type.scalar) :
  c.Conforms x p
  := by
  intro s text d _ _
  refine ⟨_, hdetails, rfl, ?_⟩
  intro other hother
  cases hother
  apply htype

namespace Session

variable {r : Session}

/-- The rest of a resolution settles cells of what its beginning left. -/
theorem settles_after {before after : List SymbolId}
    (hvisits : r.context.tree.visits = before ++ after) :
  Pass.Settles (fun _ => True) (before.foldl Pass.resolveSymbol ⟨r, .zero⟩) r.pass
  := by
  rw [pass, hvisits, List.foldl_append]
  apply (Pass.settles_foldl _ after).mono
  intro c _
  trivial

/-- If the initial values conform to the declarations, so do the constants known so far. -/
theorem scalarType?_of_before (hr : r.context.KeepsTypes)
    (hconforms : ∀ x p, r.context.tree.Initializes x p → r.pass.session.context.Conforms x p)
    {before after : List SymbolId} (hvisits : r.context.tree.visits = before ++ after)
    {s : ScopeId} {text : String} {x : SymbolId} {d : Constant}
    (hx : r.pass.tree.denoted? s text = some x)
    (hd : ((before.foldl Pass.resolveSymbol ⟨r, .zero⟩).tree.symbol x).namedConstant? = some d) :
  (r.pass.tree.symbol x).scalarType? = some d.type
  := by
  have houtline := r.settles_pass.outline
  induction before using List.reverseRecOn generalizing after s text x d with
  | nil =>
    have hdenoted : r.context.tree.denoted? s text = some x :=
      (Tree.denoted?_eq_of_outline_eq houtline s text).symm.trans hx
    apply Symbol.scalarType?_of_outline_eq (Tree.outline_symbol_eq_of_outline_eq houtline x) hd
      (r.settles_pass.namedConstant? hd)
    apply Context.keepsTypes_iff.mp hr s text x d hdenoted hd
  | append_singleton before z ih =>
    have hvisits' : r.context.tree.visits = before ++ z :: after := by
      rw [hvisits, List.append_assoc, List.singleton_append]
    have hbefore := Pass.settles_foldl ⟨r, .zero⟩ before
    have hafter := settles_after hvisits'
    have hd' := (settles_after hvisits).namedConstant? hd
    rw [List.foldl_append] at hd
    rcases Pass.namedConstant?_resolveSymbol hd with hd | ⟨rfl, phrase, hinit, hvalue⟩
    · apply ih hvisits' hx hd
    · -- the initial value has the type that `x` is declared with, so the constant has it too
      have htyped := (Pass.typedIn_hidden hafter hinit.1 fun _ _ _ => ih hvisits').typeOf?_of_value?
        hvalue
      obtain ⟨details, hdetails, hscalar, htype⟩ :=
        hconforms x phrase (hbefore.initializes hinit) s text d hx hd'
      rw [Symbol.scalarType?_eq_iff hd']
      refine ⟨details, hdetails, hscalar, ?_⟩
      intro type hintrinsic
      rw [← Tree.owner_eq_of_outline_eq hafter.outline] at htyped
      apply Option.some.inj ((htype type hintrinsic).symm.trans htyped)

/-- If constants are what they are declared to be, then so are the initial values that they come
from. -/
theorem conforms_of_keepsTypes (hq : r.pass.session.context.KeepsTypes) {x : SymbolId} {p : Phrase}
    (hinit : r.context.tree.Initializes x p) :
  r.pass.session.context.Conforms x p
  := by
  intro s text d hx hd
  obtain ⟨details, hdetails, hscalar, htype⟩ := (Symbol.scalarType?_eq_iff hd).mp
    (Context.keepsTypes_iff.mp hq s text x d hx hd)
  refine ⟨details, hdetails, hscalar, ?_⟩
  intro type hintrinsic
  rw [htype type hintrinsic]
  rcases Pass.namedConstant?_foldl hd with hd' | ⟨before, after, phrase, hvisits, hinit', hvalue⟩
  · cases hinit.namedConstant?.symm.trans hd'
  · have hbefore := Pass.settles_foldl ⟨r, .zero⟩ before
    have hafter := settles_after hvisits
    obtain rfl : phrase = p := by
      have hpending := (hbefore.initializes hinit').2
      cases hinit.2.symm.trans hpending
      rfl
    have htyped := Pass.typedIn_hidden hafter hinit'.1 (s := (r.context.tree.symbol x).owner)
      fun name y c hy hc => Context.keepsTypes_iff.mp hq _ name y c hy (hafter.namedConstant? hc)
    have howner := Tree.owner_eq_of_outline_eq r.settles_pass.outline x
    change (r.pass.session.context.tree.symbol x).owner = _ at howner
    rw [howner]
    apply htyped.typeOf?_of_value? hvalue

/-- A resolution keeps types exactly if they were kept before and every initial value that it
analyses conforms to its declaration. -/
theorem keepsTypes_resolve_iff (r : Session) :
  r.resolve.2.context.KeepsTypes ↔ r.context.KeepsTypes
    ∧ ∀ x p, r.context.tree.Initializes x p → r.resolve.2.context.Conforms x p
  := by
  have hpass := r.settles_pass
  rw [resolve_eq]
  constructor
  · intro hq
    constructor
    · rw [Context.keepsTypes_iff] at hq ⊢
      intro s text x d hx hd
      have hd' := hpass.namedConstant? hd
      have hx' := (Tree.denoted?_eq_of_outline_eq hpass.outline s text).trans hx
      apply Symbol.scalarType?_of_outline_eq
        (Tree.outline_symbol_eq_of_outline_eq hpass.outline x).symm hd' hd
      apply hq s text x d hx' hd'
    · intro x p
      apply conforms_of_keepsTypes hq
  · rintro ⟨hr, hconforms⟩
    rw [Context.keepsTypes_iff]
    intro s text x d hx hd
    apply scalarType?_of_before hr hconforms (List.append_nil _).symm hx hd

/-- A name stands for what the initial value of a named constant was resolved to, whatever type
and rank the constant is declared with.  Where that keeps types, phrases read as declared; and it
does so after a resolution exactly if it did before and the initial values conform to their
declarations. -/
theorem substitution_keepsTypes_iff (r : Session) :
  (∀ s name d, (r.context.analysis s (.designator name)).result = some (.constant d)
      ↔ ∃ x, r.context.tree.denoted? s name.text = some x
        ∧ .parameter ∈ (r.context.tree.symbol x).attrs
        ∧ ∃ details, (r.context.tree.symbol x).details = .object details
          ∧ details.init = some (.resolved (.constant d)))
    ∧ (r.context.KeepsTypes → r.context.ReadsAsDeclared)
    ∧ (r.resolve.2.context.KeepsTypes ↔ r.context.KeepsTypes
      ∧ ∀ x p, r.context.tree.Initializes x p → r.resolve.2.context.Conforms x p)
  := by
  refine ⟨?_, Context.KeepsTypes.readsAsDeclared, r.keepsTypes_resolve_iff⟩
  intro s name d
  simp only [Context.result_designator_eq_some_iff, Symbol.namedConstant?_eq_some_iff]

/-- A number and an array, both declared as integers of the kind 8, whose initial values are
numbers of the default kind. -/
def mismatched : Session :=
  let span : Span := ⟨"a.f90", 0, 1⟩
  let declaration (name : String) (shape : List Dimension) : Operation :=
    .onTree (.declare .global ⟨name, span⟩ (.object
      ⟨some (.intrinsic ⟨.integer, 8, by decide, by decide⟩),
        some (.pending (.integer 1 none span)), shape⟩))
  (initial .standard).run
    [declaration "n" [], .onTree (.addAttr ⟨0⟩ .parameter),
      declaration "a" [⟨.ofInt 1, .ofInt 3⟩], .onTree (.addAttr ⟨1⟩ .parameter), .resolve]

/-- In `mismatched` both names stand for a scalar of the default kind, which is then what `kind`
gives for the number. -/
theorem not_keepsTypes_mismatched :
  mismatched.Reachable ∧ ¬ mismatched.context.KeepsTypes
    ∧ (mismatched.context.tree.symbol ⟨0⟩).scalarType? = some ⟨.integer, 8⟩
    ∧ mismatched.context.value? .global (.designator ⟨"n", default⟩) = some (.integer 1 4)
    ∧ mismatched.context.value? .global
        (.reference ⟨"kind", default⟩ (.cons none (.designator ⟨"n", default⟩) .nil) default)
      = some (.integer 4 4)
    ∧ (mismatched.context.tree.symbol ⟨1⟩).details.shape ≠ []
    ∧ mismatched.context.value? .global (.designator ⟨"a", default⟩) = some (.integer 1 4)
  := by
  have htype : (mismatched.context.tree.symbol ⟨0⟩).scalarType? = some ⟨.integer, 8⟩ := by
    decide +kernel
  refine ⟨?_, ?_, htype, by decide +kernel, by decide +kernel, by decide +kernel,
    by decide +kernel⟩
  · apply (Reachable.initial .standard).run
    decide +kernel
  · intro h
    have hkept := Context.keepsTypes_iff.mp h .global "n" ⟨0⟩ (.integer 1 4) (by decide +kernel)
      (by decide +kernel)
    cases htype.symm.trans hkept

/-- A number with a kind of its own, and another one of that kind that depends on it. -/
def typed : Session :=
  let span : Span := ⟨"a.f90", 0, 1⟩
  let declaration (name : String) (init : Phrase) : Operation :=
    .onTree (.declare .global ⟨name, span⟩ (.object
      ⟨some (.intrinsic ⟨.integer, 8, by decide, by decide⟩), some (.pending init), []⟩))
  (initial .standard).run
    [declaration "n" (.integer 2 (some "8") span), .onTree (.addAttr ⟨0⟩ .parameter),
      declaration "m"
        (.binary (.intrinsic .add) (.designator ⟨"n", span⟩) (.integer 1 none span)),
      .onTree (.addAttr ⟨1⟩ .parameter)]

/-- The named constants of `typed` are its two symbols. -/
theorem eq_of_isNamedConstant_typed {x : SymbolId}
    (h : (typed.context.tree.symbol x).IsNamedConstant) :
  x = ⟨0⟩ ∨ x = ⟨1⟩
  := by
  have hsize : typed.context.tree.symbols.size = 2 := by decide +kernel
  have hx := Tree.hasSymbol_of_isNamedConstant h
  rw [Tree.HasSymbol, hsize] at hx
  obtain ⟨index⟩ := x
  have hindex : index = 0 ∨ index = 1 := Nat.le_one_iff_eq_zero_or_eq_one.mp (Nat.le_of_lt_succ hx)
  rcases hindex with rfl | rfl
  · exact .inl rfl
  · exact .inr rfl

/-- After the resolution of `typed` both numbers are of the kind that they are declared with. -/
theorem substitution_keepsTypes_iff_typed :
  typed.resolve.2.context.KeepsTypes ∧ typed.resolve.2.context.ReadsAsDeclared
    ∧ typed.resolve.2.context.value? .global
        (.reference ⟨"kind", default⟩ (.cons none (.designator ⟨"m", default⟩) .nil) default)
      = some (.integer 8 4)
  := by
  have hbefore : typed.context.KeepsTypes := by
    rw [Context.keepsTypes_iff]
    intro s text x d _ hd
    have hn : (typed.context.tree.symbol ⟨0⟩).namedConstant? = none := by decide +kernel
    have hm : (typed.context.tree.symbol ⟨1⟩).namedConstant? = none := by decide +kernel
    rcases eq_of_isNamedConstant_typed (Tree.namedConstant?_eq_some_iff.mp hd).1 with rfl | rfl
    · cases hn.symm.trans hd
    · cases hm.symm.trans hd
  have hconforms : ∀ x p, typed.context.tree.Initializes x p →
      typed.resolve.2.context.Conforms x p := by
    rintro x p ⟨hconstant, hcell⟩
    let span : Span := ⟨"a.f90", 0, 1⟩
    let long : IntrinsicType := ⟨.integer, 8, by decide, by decide⟩
    rcases eq_of_isNamedConstant_typed hconstant with rfl | rfl
    · have hn : typed.context.tree.cell? (.declaration ⟨0⟩ .init)
          = some (.pending (.integer 2 (some "8") span)) := by decide +kernel
      have hdetails : (typed.resolve.2.context.tree.symbol ⟨0⟩).details
          = .object ⟨some (.intrinsic long), some (.resolved (.constant (.integer 2 8))), []⟩ := by
        decide +kernel
      cases hn.symm.trans hcell
      apply Context.conforms_of_intrinsic hdetails
      decide +kernel
    · have hm : typed.context.tree.cell? (.declaration ⟨1⟩ .init)
          = some (.pending (.binary (.intrinsic .add) (.designator ⟨"n", span⟩)
            (.integer 1 none span))) := by decide +kernel
      have hdetails : (typed.resolve.2.context.tree.symbol ⟨1⟩).details
          = .object ⟨some (.intrinsic long), some (.resolved (.constant (.integer 3 8))), []⟩ := by
        decide +kernel
      cases hm.symm.trans hcell
      apply Context.conforms_of_intrinsic hdetails
      decide +kernel
  have hkeeps : typed.resolve.2.context.KeepsTypes :=
    (substitution_keepsTypes_iff typed).2.2.mpr ⟨hbefore, hconforms⟩
  refine ⟨hkeeps, (substitution_keepsTypes_iff typed.resolve.2).2.1 hkeeps, ?_⟩
  decide +kernel

end Session

end FortranScope
