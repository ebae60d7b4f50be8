import FortranScope.Proofs.Expr.Evaluation
import FortranScope.Proofs.Tree.Association
import Mathlib.Data.List.Induction

/-!
# Named constants

A resolution gets to the scopes around a scope before that scope, and to the symbols of a scope
in the order of their declaration.  So when it gets to a named constant whose initial value is
made of literals, operators and named constants before it, these have their values already, and
the initial value is resolved to a constant.
-/

namespace FortranScope

/-! ## Named constants and their initial values -/

/-- The symbol is declared as a named constant. -/
def Symbol.IsNamedConstant (x : Symbol) : Prop :=
  x.hasAttr .parameter = true ∧ ∃ details, x.details = .object details

namespace Symbol

variable {x x' : Symbol}

/-- Whether a symbol is a named constant is read off its outline. -/
theorem IsNamedConstant.of_outline_eq (hx : x.IsNamedConstant) (h : x'.outline = x.outline) :
  x'.IsNamedConstant
  := by
  obtain ⟨hattr, details, hdetails⟩ := hx
  have hattrs := congrArg Symbol.attrs h
  have houtline := congrArg Symbol.details h
  constructor
  · rw [hasAttr, show x'.attrs = x.attrs from hattrs]
    apply hattr
  · change x'.details.outline = x.details.outline at houtline
    rw [hdetails] at houtline
    cases hdetails' : x'.details with
    | object details' => exact ⟨details', rfl⟩
    | _ =>
      rw [hdetails'] at houtline
      contradiction

/-- A named constant whose initial value is resolved to a constant has this value. -/
theorem namedConstant?_eq_some (hx : x.IsNamedConstant) {c : Constant}
    (h : x.details.at? .init = some (.resolved (.constant c))) :
  x.namedConstant? = some c
  := by
  obtain ⟨hattr, details, hdetails⟩ := hx
  have hinit : details.init = some (.resolved (.constant c)) := by
    rw [hdetails] at h
    apply h
  rw [namedConstant?, hdetails]
  simp only [hattr, if_true, hinit]
  rfl

end Symbol

namespace Tree

/-- The symbol `x` is a named constant whose initial value is still to be analysed. -/
def Initializes (t : Tree) (x : SymbolId) (p : Phrase) : Prop :=
  (t.symbol x).IsNamedConstant ∧ t.cell? (.declaration x .init) = some (.pending p)

/-- An object with the attribute and a pending initial value is a named constant to be initialized.
-/
theorem initializes_of_details {t : Tree} {x : SymbolId} {p : Phrase} (details : ObjectDetails)
    (hattr : (t.symbol x).hasAttr .parameter = true)
    (hdetails : (t.symbol x).details = .object { details with init := some (.pending p) }) :
  t.Initializes x p
  := by
  constructor
  · exact ⟨hattr, _, hdetails⟩
  · rw [cell?, hdetails]
    rfl

/-- `C` are named constants with initial values that have the given values.  Each is in the table
of its owner, and the names in its initial value denote members of `C` that precede it. -/
structure Constants (t : Tree) (config : Config) (C : Set SymbolId)
    (value : SymbolId → Value Unit) : Prop where
  tabled : ∀ x ∈ C, x ∈ (t.scope (t.symbol x).owner).table.values
  evaluates : ∀ x ∈ C, ∃ p, t.Initializes x p ∧ p.Evaluates config
    (fun name v => ∃ y ∈ C, t.denoted? (t.symbol x).owner name.text = some y ∧ t.Precedes y x
      ∧ v = value y) (value x)

/-- The initial value of the symbol `x` is resolved to a constant with the value `v`. -/
def HoldsConstant (t : Tree) (x : SymbolId) (v : Value Unit) : Prop :=
  ∃ c, t.cell? (.declaration x .init) = some (.resolved (.constant c)) ∧ c.denoted .silent = v

end Tree

/-! ## One named constant -/

/-- An expression over names with known values is settled to a constant with its value. -/
theorem Session.settle_of_evaluates {r : Session} {s : ScopeId} {p : Phrase}
    {named : Name → Value Unit → Prop} {v : Value Unit} (h : p.Evaluates r.context.config named v)
    (hnamed : ∀ name v, named name v → ∃ y d, r.context.tree.denoted? s name.text = some y
      ∧ (r.context.tree.symbol y).namedConstant? = some d ∧ d.denoted .silent = v) :
  ∃ d, (r.settle s (.pending p)).1 = .resolved (.constant d) ∧ d.denoted .silent = v
  := by
  obtain ⟨e, d, he, hfold, hv⟩ := h.exists_fold hnamed
  refine ⟨d, ?_, hv⟩
  rw [settle]
  split
  · next heq =>
    have hresult : (r.context.analysis s p).result = none := congrArg Prod.fst heq
    rw [he] at hresult
    contradiction
  · next e' next heq =>
    have hresult : (r.context.analysis s p).result = some e' := congrArg Prod.fst heq
    obtain rfl := Option.some.inj (he.symm.trans hresult)
    have hnext : next = (r.analyze s p).2 := (congrArg Prod.snd heq).symm
    rw [hnext]
    exact congrArg Deferred.resolved hfold

namespace Pass

variable {q : Pass} {x : SymbolId} {p : Phrase} {v : Value Unit} {named : Name → Value Unit → Prop}

/-- While the details of a named constant are hidden, names denote what they denoted before. -/
theorem denoted?_withDetails (hx : (q.tree.symbol x).IsNamedConstant) (s : ScopeId)
    (text : String) :
  (q.withDetails x .unknown).tree.denoted? s text = q.tree.denoted? s text
  := by
  apply Tree.denoted?_congr
  · intro s
    rfl
  · intro y
    change ((q.tree.setDetails x .unknown).symbol y).details.isInterfaceBody = _
    rw [Tree.symbol_setDetails]
    split
    · next hy =>
      obtain ⟨-, details, hdetails⟩ := hx
      rw [hy.1, hdetails]
      rfl
    · rfl

/-- The initial value of a named constant is settled while its details are hidden. -/
theorem cell?_resolveDetails (hx : (q.tree.symbol x).IsNamedConstant) {init : Deferred}
    (hinit : q.tree.cell? (.declaration x .init) = some init) :
  (q.resolveDetails x).tree.cell? (.declaration x .init)
    = some ((q.withDetails x .unknown).settle (q.tree.symbol x).owner init).1
  := by
  obtain ⟨-, details, hdetails⟩ := hx
  have hinit' : details.init = some init := by
    rw [Tree.cell?, hdetails] at hinit
    apply hinit
  rw [Tree.cell?, details_resolveDetails, hdetails, settleDetails]
  change (settleInit _ _ details.init).1 = _
  rw [hinit', settleInit]

/-- A named constant gets the value of its initial value, if the names in it have their values
already. -/
theorem holdsConstant_resolveDetails (hx : q.tree.Initializes x p)
    (h : p.Evaluates q.session.context.config named v)
    (hnamed : ∀ name w, named name w → ∃ y, q.tree.denoted? (q.tree.symbol x).owner name.text
      = some y ∧ (q.tree.symbol y).IsNamedConstant ∧ q.tree.HoldsConstant y w) :
  (q.resolveDetails x).tree.HoldsConstant x v
  := by
  obtain ⟨hconstant, hinit⟩ := hx
  -- the constants that the names denote are other ones, which are not hidden
  have hhidden (name : Name) (w : Value Unit) (hw : named name w) : ∃ y d,
      (q.withDetails x .unknown).tree.denoted? (q.tree.symbol x).owner name.text = some y
      ∧ ((q.withDetails x .unknown).tree.symbol y).namedConstant? = some d
      ∧ d.denoted .silent = w := by
    obtain ⟨y, hy, hyconstant, d, hd, hdw⟩ := hnamed name w hw
    have hne : y ≠ x := by
      rintro rfl
      rw [hinit] at hd
      cases hd
    have hsymbol : (q.withDetails x .unknown).tree.symbol y = q.tree.symbol y := by
      change (q.tree.setDetails x .unknown).symbol y = _
      rw [Tree.symbol_setDetails, if_neg fun h => hne h.1]
    refine ⟨y, d, ?_, ?_, hdw⟩
    · rw [denoted?_withDetails hconstant, hy]
    · rw [hsymbol, Symbol.namedConstant?_eq_some hyconstant hd]
  obtain ⟨d, hd, hdv⟩ := Session.settle_of_evaluates
    (r := (q.withDetails x .unknown).session) h hhidden
  refine ⟨d, ?_, hdv⟩
  rw [cell?_resolveDetails hconstant hinit, settle,
    if_pos (show (Deferred.pending p).isUnresolved = true from rfl)]
  exact congrArg some hd

/-- The type of a symbol has cells in derived type specs only. -/
theorem settles_resolveType_parameters (q : Pass) (x : SymbolId) :
  q.Settles (fun c => ∃ d position, c = .parameter d position) (q.resolveType x)
  := by
  apply settles_resolveType
  intro d position _
  exact ⟨d, position, rfl⟩

/-- Resolving a named constant gives it its value, since resolving its type comes first and changes
no declaration. -/
theorem holdsConstant_resolveSymbol (hx : q.tree.Initializes x p)
    (h : p.Evaluates q.session.context.config named v)
    (hnamed : ∀ name w, named name w → ∃ y, q.tree.denoted? (q.tree.symbol x).owner name.text
      = some y ∧ (q.tree.symbol y).IsNamedConstant ∧ q.tree.HoldsConstant y w) :
  (q.resolveSymbol x).tree.HoldsConstant x v
  := by
  -- the parameter values of its type are resolved first, which changes no declaration
  have htype := q.settles_resolveType_parameters x
  have hsymbol := Tree.outline_symbol_eq_of_outline_eq htype.outline
  have hcell (y : SymbolId) : (q.resolveType x).tree.cell? (.declaration y .init)
      = q.tree.cell? (.declaration y .init) := by
    apply htype.cell?_of_not
    rintro ⟨d, position, hc⟩
    contradiction
  have hx' : (q.resolveType x).tree.Initializes x p :=
    ⟨hx.1.of_outline_eq (hsymbol x), (hcell x).trans hx.2⟩
  have h' : p.Evaluates (q.resolveType x).session.context.config named v := by
    rw [htype.config]
    apply h
  apply holdsConstant_resolveDetails hx' h'
  intro name w hw
  obtain ⟨y, hy, hconstant, hholds⟩ := hnamed name w hw
  refine ⟨y, ?_, hconstant.of_outline_eq (hsymbol y), ?_⟩
  · rw [Tree.owner_eq_of_outline_eq htype.outline, Tree.denoted?_eq_of_outline_eq htype.outline,
      hy]
  · rw [Tree.HoldsConstant, hcell]
    apply hholds

end Pass

/-! ## All named constants -/

namespace Session

variable {r : Session} {C : Set SymbolId} {value : SymbolId → Value Unit}

/-- Once the pass went over some symbols, the named constants among them hold their values. -/
theorem holdsConstant_foldl (hr : r.context.tree.Coherent)
    (hC : r.context.tree.Constants r.context.config C value) {before after : List SymbolId}
    (hvisits : r.context.tree.visits = before ++ after) {x : SymbolId} (hx : x ∈ C)
    (hbefore : x ∈ before) :
  (before.foldl Pass.resolveSymbol ⟨r, .zero⟩).tree.HoldsConstant x (value x)
  := by
  induction before using List.reverseRecOn generalizing after x with
  | nil => contradiction
  | append_singleton before z ih =>
    rw [List.append_assoc] at hvisits
    have hsettles := Pass.settles_foldl ⟨r, .zero⟩ before
    rw [List.foldl_append]
    by_cases hmem : x ∈ before
    · -- a cell that is settled stays as it is
      obtain ⟨c, hc, hcx⟩ := ih hvisits hx hmem
      refine ⟨c, ?_, hcx⟩
      rw [← hc]
      apply (Pass.settles_resolveSymbol _ z).cell?_of_settled
      rintro ⟨d, hd, hunresolved⟩
      rw [hc] at hd
      cases hd
      contradiction
    · -- `x` is the last one: what its initial value names was visited before and holds its value
      obtain rfl : x = z := by simpa [hmem] using hbefore
      have houtline := hsettles.outline
      obtain ⟨p, ⟨hconstant, hinit⟩, hevaluates⟩ := hC.evaluates x hx
      rw [List.foldl_cons, List.foldl_nil]
      apply Pass.holdsConstant_resolveSymbol (p := p)
      · use hconstant.of_outline_eq (Tree.outline_symbol_eq_of_outline_eq houtline x)
        rw [← hinit]
        apply hsettles.cell?_of_not
        rintro ⟨z, hz, rfl⟩
        exact hmem hz
      · rw [hsettles.config]
        apply hevaluates
      · rintro name w ⟨y, hy, hdenoted, hprecedes, rfl⟩
        obtain ⟨_, ⟨hyconstant, -⟩, -⟩ := hC.evaluates y hy
        have hybefore : y ∈ before := hr.mem_visits_before (hC.tabled y hy) hprecedes hvisits
        refine ⟨y, ?_, ?_, ih hvisits hy hybefore⟩
        · rw [Tree.owner_eq_of_outline_eq houtline, Tree.denoted?_eq_of_outline_eq houtline]
          apply hdenoted
        · apply hyconstant.of_outline_eq (Tree.outline_symbol_eq_of_outline_eq houtline y)

/-- A resolution gives every named constant its value. -/
theorem holdsConstant_resolve (hr : r.Reachable)
    (hC : r.context.tree.Constants r.context.config C value) {x : SymbolId} (hx : x ∈ C) :
  r.resolve.2.context.tree.HoldsConstant x (value x)
  := by
  have hcoherent := hr.coherent
  have hvisited : x ∈ r.context.tree.visits := by
    have htabled := hC.tabled x hx
    apply hcoherent.mem_visits_iff.mpr ⟨_, Tree.hasScope_of_mem_values htabled, htabled⟩
  rw [resolve_eq]
  apply holdsConstant_foldl hcoherent hC (List.append_nil _).symm hx hvisited

/-- A number in the global scope, and in a scope inside it another one and a truth value that
both depend on those before. -/
def constantsRun : List Operation :=
  let span : Span := ⟨"a.f90", 0, 1⟩
  let declaration (s : ScopeId) (name : String) (init : Phrase) : Operation :=
    .onTree (.declare s ⟨name, span⟩ (.object ⟨none, some (.pending init), []⟩))
  let n : Phrase := .designator ⟨"n", span⟩
  let m : Phrase := .designator ⟨"m", span⟩
  [declaration .global "n" (.integer 2 none span),
    .onTree (.addAttr ⟨0⟩ .parameter),
    .onTree (.makeScope .global .mainProgram none),
    declaration ⟨1⟩ "m" (.binary (.intrinsic .power) n (.integer 3 none span)),
    .onTree (.addAttr ⟨1⟩ .parameter),
    declaration ⟨1⟩ "l" (.parentheses (.binary (.intrinsic .gt) m n) span),
    .onTree (.addAttr ⟨2⟩ .parameter)]

/-- The values of the constants in `constantsRun`. -/
def constantsValue (x : SymbolId) : Value Unit :=
  match x.index with
  | 0 => .integer 2 4
  | 1 => .integer 8 4
  | _ => .logical true 4

/-- The members of `constantsRun` depend on each other as `Tree.Constants` asks for. -/
theorem constants_constantsRun :
  ((initial .standard).run constantsRun).context.tree.Constants .standard
    {x | x.index < 3} constantsValue
  := by
  have hall {P : SymbolId → Prop} (h₀ : P ⟨0⟩) (h₁ : P ⟨1⟩) (h₂ : P ⟨2⟩) :
      ∀ x : SymbolId, x.index < 3 → P x := by
    rintro ⟨i⟩ hi
    match i, hi with
    | 0, _ => apply h₀
    | 1, _ => apply h₁
    | 2, _ => apply h₂
  have hglobal : ((initial .standard).run constantsRun).context.tree.Encloses .global ⟨1⟩ := by
    apply Relation.TransGen.single
    decide +kernel
  let span : Span := ⟨"a.f90", 0, 1⟩
  let n : Phrase := .designator ⟨"n", span⟩
  let m : Phrase := .designator ⟨"m", span⟩
  constructor
  · apply hall <;> decide +kernel
  · apply hall
    · use .integer 2 none span
      constructor
      · apply Tree.initializes_of_details ⟨none, none, []⟩ <;> decide +kernel
      · apply Phrase.Evaluates.integer
        decide
    · use .binary (.intrinsic .power) n (.integer 3 none span)
      constructor
      · apply Tree.initializes_of_details ⟨none, none, []⟩ <;> decide +kernel
      · apply Phrase.Evaluates.binary (v := .integer 3 4)
        · apply Phrase.Evaluates.designator
          exact ⟨⟨0⟩, by decide, by decide +kernel, .inl hglobal, rfl⟩
        · apply Phrase.Evaluates.integer
          decide
        · rfl
        · decide
    · use .parentheses (.binary (.intrinsic .gt) m n) span
      constructor
      · apply Tree.initializes_of_details ⟨none, none, []⟩ <;> decide +kernel
      · apply Phrase.Evaluates.parentheses
        apply Phrase.Evaluates.binary
        · apply Phrase.Evaluates.designator
          exact ⟨⟨1⟩, by decide, by decide +kernel, .inr (by decide +kernel), rfl⟩
        · apply Phrase.Evaluates.designator
          exact ⟨⟨0⟩, by decide, by decide +kernel, .inl hglobal, rfl⟩
        · rfl
        · decide

/-- The constants in `constantsRun` get their values. -/
theorem holdsConstant_resolve_constantsRun :
  let r := (initial .standard).run constantsRun
  let t := r.resolve.2.context.tree
  r.Reachable ∧ r.context.tree.Constants r.context.config {x | x.index < 3} constantsValue
    ∧ t.HoldsConstant ⟨0⟩ (.integer 2 4) ∧ t.HoldsConstant ⟨1⟩ (.integer 8 4)
    ∧ t.HoldsConstant ⟨2⟩ (.logical true 4)
  := by
  intro r t
  have hvalid : (initial .standard).ValidRun constantsRun := by decide +kernel
  have hr : r.Reachable := (Reachable.initial .standard).run hvalid
  have hconfig : r.context.config = .standard := by decide +kernel
  have hC : r.context.tree.Constants r.context.config {x | x.index < 3} constantsValue := by
    rw [hconfig]
    apply constants_constantsRun
  have hholds (x : SymbolId) (hx : x.index < 3) : t.HoldsConstant x (constantsValue x) :=
    holdsConstant_resolve hr hC hx
  exact ⟨hr, hC, hholds ⟨0⟩ (by decide), hholds ⟨1⟩ (by decide), hholds ⟨2⟩ (by decide)⟩

end Session

end FortranScope
