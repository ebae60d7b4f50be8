import FortranScope.Proofs.Session.Integrity

/-!
# Operations step by step

An operation may find out that it cannot succeed after it has already written something.  Here
the operations that may fail are carried out in single steps, in the order in which conditions are
examined and records are written, and a step that fails leaves in place what was written before.
As it turns out there never is anything to take back: every operation does in steps what its
definition says at once.
-/

namespace FortranScope

/-- Steps on a state.  What was written before a step that fails stays. -/
abbrev Steps (σ α : Type) := ExceptT Defect (StateM σ) α

namespace Steps

section

variable {σ α β : Type}

/-- What the steps give from a state on, and the state that they leave behind. -/
def outcome (steps : Steps σ α) (state : σ) : Except Defect α × σ := steps.run.run state

/-- Goes on only if the condition holds. -/
def check (p : Prop) [Decidable p] (d : Defect) : Steps σ Unit := if p then pure () else throw d

/-- Steps one after the other go on from what the first ones gave, in the state that these left, and
end with the first failure. -/
theorem outcome_bind (steps : Steps σ α) (next : α → Steps σ β) (state : σ) :
  (steps >>= next).outcome state
    = match steps.outcome state with
      | (.ok a, later) => (next a).outcome later
      | (.error d, later) => (.error d, later)
  := by
  simp only [outcome, ExceptT.run_bind, StateT.run_bind]
  change (match steps.run.run state with | (a, later) => _) = _
  rcases steps.run.run state with ⟨a, later⟩
  cases a <;> rfl

@[simp]
theorem outcome_pure (a : α) (state : σ) :
  (pure a : Steps σ α).outcome state = (.ok a, state)
  := rfl

@[simp]
theorem outcome_get_bind (next : σ → Steps σ β) (state : σ) :
  (get >>= next).outcome state = (next state).outcome state
  := rfl

/-- A condition that is examined and does not hold ends the steps where they stand. -/
theorem outcome_check_bind (p : Prop) [Decidable p] (d : Defect) (next : Unit → Steps σ β)
    (state : σ) :
  (check p d >>= next).outcome state
    = if p then (next ()).outcome state else (.error d, state)
  := by
  rw [check]
  split <;> rfl

end

/-! ## Scopes -/

/-- Creates a scope, links it from its parent, and notes it at the symbol that introduces it. -/
def makeScope (parent : ScopeId) (kind : ScopeKind) (symbol : Option SymbolId) :
    Steps Tree ScopeId := do
  check (kind ≠ .global) .secondGlobalScope
  check (kind ≠ .moduleUnit ∨ symbol.isSome) .moduleWithoutSymbol
  let t ← get
  let id : ScopeId := ⟨t.scopes.size⟩
  modify fun t => { t with scopes := t.scopes.push (.make id kind (some parent) symbol) }
  modify fun t => t.modifyScope parent fun q => { q with children := q.children ++ [id] }
  match symbol with
  | none => return id
  | some x =>
    modify fun t => t.modifySymbol x fun y => { y with scope := some id }
    return id

/-- The parent of a scope that has one. -/
def parent (s : ScopeId) : Steps Tree ScopeId := do
  let t ← get
  match (t.scope s).parent with
  | none => throw (.noParent (t.scope s).kind)
  | some p => return p

/-! ## Names -/

/-- Creates a symbol and enters its name, unless the name is taken. -/
def declare (s : ScopeId) (name : Name) (details : Details) :
    Steps Tree (Except Diagnostic SymbolId) := do
  let t ← get
  if (t.scope s).table.contains name.text then
    return .error (.error (.symbolAlreadyDeclared name.text) name.span.first)
  let id : SymbolId := ⟨t.symbols.size⟩
  modify fun t =>
    { t with symbols := t.symbols.push ⟨id, name.text, s, none, [], details, name.span, []⟩ }
  modify fun t => t.modifyScope s fun q => { q with table := q.table.insert name.text id }
  return .ok id

/-- Looks a name up in one scope and notes the use of what is found. -/
def find (s : ScopeId) (name : Name) : Steps Tree (Option SymbolId) := do
  let t ← get
  match t.local? s name.text with
  | none => return none
  | some x =>
    modify fun t => t.addOccurrence x .used name.span
    return some x

/-- Notes the removal of a name and takes it out of the table. -/
def erase (s : ScopeId) (name : Name) : Steps Tree Nat := do
  let t ← get
  match t.local? s name.text with
  | none => return 0
  | some x =>
    modify fun t => t.addOccurrence x .removed name.span
    modify fun t => t.modifyScope s fun q => { q with table := q.table.erase name.text }
    return 1

/-- Looks a name up along a chain of scopes, innermost first.  The definition of a derived type is
passed over, and any other scope where the name is not found has to let it in.  To go on there has
to be a scope around. -/
def findAlong (name : Name) : List ScopeId → Steps Tree (Option SymbolId)
  | [] => return none
  | s :: outer => do
    let t ← get
    if (t.scope s).kind = .derivedType then
      let _ ← parent s
      findAlong name outer
    else
      match ← find s name with
      | some x => return some x
      | none =>
        let t ← get
        if t.canImport s name.text then
          let _ ← parent s
          findAlong name outer
        else return none

/-- Looks a name up from a scope outward. -/
def findSymbol (s : ScopeId) (name : Name) : Steps Tree (Option SymbolId) := do
  let t ← get
  findAlong name (t.hosts s)

/-! ## Imports, submodules and derived types -/

/-- Sets the policy, unless one was set. -/
def setImport (s : ScopeId) (policy : ImportPolicy) : Steps Tree (Option Cause) := do
  let t ← get
  match (t.scope s).importPolicy with
  | none =>
    modify fun t => t.modifyScope s fun q => { q with importPolicy := some policy }
    return none
  | some first => return first.conflict? policy

/-- Looks a name up in the scope around and lets it in. -/
def addImportName (s : ScopeId) (name : Name) : Steps Tree Bool := do
  let p ← parent s
  match ← findSymbol p name with
  | none => return false
  | some _ =>
    modify fun t => t.modifyScope s fun q =>
      { q with importNames := q.importNames.insert name.text }
    return true

/-- Registers a submodule, unless the name is taken. -/
def addSubmodule (s : ScopeId) (name : String) (submodule : ScopeId) : Steps Tree Bool := do
  let t ← get
  if (t.scope s).submodules.contains (Text.foldCase name) then return false
  else
    modify fun t => t.modifyScope s fun q =>
      { q with submodules := q.submodules.insert (Text.foldCase name) submodule }
    return true

/-- Binds a derived type spec that is not bound yet to the definition of a derived type. -/
def bindSpec (d : SpecId) (s : ScopeId) : Steps Tree Unit := do
  let t ← get
  check ((t.spec d).scope = none) (.specScopeAlreadySet (t.spec d).name)
  check ((t.scope s).kind = .derivedType) .specScopeNotDerivedType
  modify fun t => t.modifySpec d fun e => { e with scope := some s }

end Steps

namespace Tree

variable {t : Tree}

/-- What an operation gave, with the tree it was made on if it failed. -/
def kept {α : Type} (t : Tree) : Except Defect (α × Tree) → Except Defect α × Tree
  | .ok (a, u) => (.ok a, u)
  | .error d => (.error d, t)

/-! ## The same at once -/

/-- Both conditions are examined before anything is written, so a refused scope leaves no trace. -/
theorem outcome_makeScope (t : Tree) (parent : ScopeId) (kind : ScopeKind)
    (symbol : Option SymbolId) :
  (Steps.makeScope parent kind symbol).outcome t = t.kept (t.makeScope parent kind symbol)
  := by
  rw [Steps.makeScope, Steps.outcome_check_bind, makeScope]
  by_cases hkind : kind = .global
  · rw [if_neg (not_not_intro hkind), if_pos hkind]
    rfl
  · rw [if_pos hkind, if_neg hkind, Steps.outcome_check_bind]
    by_cases hmodule : kind = .moduleUnit ∧ symbol = none
    · rw [if_pos hmodule, if_neg (by simp [hmodule])]
      rfl
    · have hsymbol : kind ≠ .moduleUnit ∨ symbol.isSome := by
        simpa [Option.isSome_iff_ne_none, imp_iff_not_or] using hmodule
      rw [if_neg hmodule, if_pos hsymbol]
      cases symbol <;> rfl

/-- A refused declaration is an answer and not a failure: the steps end with the diagnostic, in the
same tree. -/
theorem outcome_declare (t : Tree) (s : ScopeId) (name : Name) (details : Details) :
  (Steps.declare s name details).outcome t
    = match t.declare s name details with
      | .ok (x, u) => (.ok (.ok x), u)
      | .error d => (.ok (.error d), t)
  := by
  rw [Steps.declare, Steps.outcome_get_bind, declare]
  split <;> rfl

/-- A look-up in one scope never fails. -/
theorem outcome_find (t : Tree) (s : ScopeId) (name : Name) :
  (Steps.find s name).outcome t = (.ok (t.find s name).1, (t.find s name).2)
  := by
  rw [Steps.find, Steps.outcome_get_bind, find]
  cases t.local? s name.text <;> rfl

/-- The removal of a name never fails: where there is nothing to remove, zero is the answer. -/
theorem outcome_erase (t : Tree) (s : ScopeId) (name : Name) :
  (Steps.erase s name).outcome t = (.ok (t.erase s name).1, (t.erase s name).2)
  := by
  rw [Steps.erase, Steps.outcome_get_bind, erase]
  cases t.local? s name.text <;> rfl

/-- A second import statement is answered with its conflict and is no failure. -/
theorem outcome_setImport (t : Tree) (s : ScopeId) (policy : ImportPolicy) :
  (Steps.setImport s policy).outcome t = (.ok (t.setImport s policy).1, (t.setImport s policy).2)
  := by
  rw [Steps.setImport, Steps.outcome_get_bind, setImport]
  cases (t.scope s).importPolicy <;> rfl

/-- A name that another submodule has is answered with `false` and is no failure. -/
theorem outcome_addSubmodule (t : Tree) (s : ScopeId) (name : String) (submodule : ScopeId) :
  (Steps.addSubmodule s name submodule).outcome t
    = (.ok (t.addSubmodule s name submodule).1, (t.addSubmodule s name submodule).2)
  := by
  rw [Steps.addSubmodule, Steps.outcome_get_bind, addSubmodule]
  split <;> rfl

/-- A spec is bound only after both conditions have been examined. -/
theorem outcome_bindSpec (t : Tree) (d : SpecId) (s : ScopeId) :
  (Steps.bindSpec d s).outcome t = t.kept ((t.bindSpec d s).map fun u => ((), u))
  := by
  rw [Steps.bindSpec, Steps.outcome_get_bind, Steps.outcome_check_bind, bindSpec]
  cases (t.spec d).scope with
  | some r => rfl
  | none =>
    rw [if_pos rfl, if_neg (by simp), Steps.outcome_check_bind]
    split <;> rfl

/-- Where a scope has a parent, asking for it changes nothing and cannot fail. -/
theorem outcome_parent_bind {α : Type} {s p : ScopeId} (h : (t.scope s).parent = some p)
    (next : ScopeId → Steps Tree α) :
  (Steps.parent s >>= next).outcome t = (next p).outcome t
  := by
  have hparent : (Steps.parent s).outcome t = (.ok p, t) := by
    rw [Steps.parent, Steps.outcome_get_bind, h, Steps.outcome_pure]
  rw [Steps.outcome_bind, hparent]

/-- A scope that has no parent is global, so a look-up ends there at the latest. -/
theorem kind_of_parent_eq_none (hcoherent : t.Coherent) (hsound : t.Sound) {s : ScopeId}
    (hs : t.HasScope s) (hparent : (t.scope s).parent = none) :
  (t.scope s).kind = .global
  := by
  apply (hsound.scope s hs).kind.mpr
  apply hcoherent.eq_global_of_parent_eq_none hs hparent

/-- On its way outward a look-up never asks the global scope for a parent: nothing can be imported
into the global scope, so the look-up has ended before. -/
theorem outcome_findAlong (hcoherent : t.Coherent) (hsound : t.Sound) (name : Name)
    {s : ScopeId} (hs : t.HasScope s) {chain : List ScopeId} (hchain : t.Outward s chain) :
  (Steps.findAlong name chain).outcome t
    = (.ok (t.associated? name.text chain),
      (t.useIfFound name (t.associated? name.text chain)).2)
  := by
  induction hchain with
  | @outermost s hparent =>
    have hkind := kind_of_parent_eq_none hcoherent hsound hs hparent
    have hne : (t.scope s).kind ≠ .derivedType := by
      rw [hkind]
      decide
    have himport : t.canImport s name.text = false := by rw [canImport, if_pos hkind]
    rw [Steps.findAlong, Steps.outcome_get_bind, associated?, if_neg hne, if_neg hne,
      Steps.outcome_bind, outcome_find, find]
    cases t.local? s name.text with
    | some x => rfl
    | none =>
      simp [useIfFound, himport]
  | @inner s p outer hparent _ ih =>
    have hp := hcoherent.hasScope_of_parent hs hparent
    rw [Steps.findAlong, Steps.outcome_get_bind, associated?]
    by_cases hkind : (t.scope s).kind = .derivedType
    · rw [if_pos hkind, if_pos hkind, outcome_parent_bind hparent, ih hp]
    · rw [if_neg hkind, if_neg hkind, Steps.outcome_bind, outcome_find, find]
      cases t.local? s name.text with
      | some x => rfl
      | none =>
        simp only [useIfFound, Steps.outcome_get_bind]
        split
        · rw [outcome_parent_bind hparent, ih hp]
          rfl
        · rfl

/-- A look-up from an existing scope outward never fails. -/
theorem outcome_findSymbol (hcoherent : t.Coherent) (hsound : t.Sound) {s : ScopeId}
    (hs : t.HasScope s) (name : Name) :
  (Steps.findSymbol s name).outcome t = (.ok (t.findSymbol s name).1, (t.findSymbol s name).2)
  := by
  rw [Steps.findSymbol, Steps.outcome_get_bind,
    outcome_findAlong hcoherent hsound name hs (hcoherent.outward_hosts hs), findSymbol,
    fst_useIfFound, visible?]

/-- A name is let in, or is not found, or the scope is global.  Only the last is a failure, found
out before anything is written. -/
theorem outcome_addImportName (hcoherent : t.Coherent) (hsound : t.Sound) {s : ScopeId}
    (hs : t.HasScope s) (name : Name) :
  (Steps.addImportName s name).outcome t = t.kept (t.addImportName s name)
  := by
  rw [Steps.addImportName, addImportName]
  cases hparent : (t.scope s).parent with
  | none =>
    rw [Steps.outcome_bind, Steps.parent, Steps.outcome_get_bind, hparent]
    rfl
  | some p =>
    have hp := hcoherent.hasScope_of_parent hs hparent
    rw [outcome_parent_bind hparent, Steps.outcome_bind, outcome_findSymbol hcoherent hsound hp]
    simp only [findSymbol]
    cases t.visible? p name.text <;> rfl

end Tree

end FortranScope
