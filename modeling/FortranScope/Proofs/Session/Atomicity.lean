import FortranScope.Proofs.Tree.Stepwise

/-!
# Atomicity

A `Workspace` is what calls can change: a session, what is known of a procedure, and the value of
a type parameter.  A call that reports a failure leaves its workspace as it was, with one
exception.  A deferred expression is settled at most once, for better or worse: if it cannot be
resolved it has failed for good, and what its analysis found is kept.
-/

namespace FortranScope

/-- What calls work on. -/
structure Workspace where
  session : Session
  interface : ProcInterface
  value : Extent
deriving DecidableEq

/-- What a call reports. -/
inductive Report where
  | done
  | created (s : ScopeId)
  | declared (outcome : Except Diagnostic SymbolId)
  | found (x : Option SymbolId)
  | removed (count : Nat)
  | violation (cause : Option Cause)
  | success (b : Bool)

/-- Whether the report says that the call failed. -/
def Report.isFailure : Report → Bool
  | declared (.error _) => true
  | found none => true
  | removed 0 => true
  | violation (some _) => true
  | success false => true
  | _ => false

namespace Workspace

/-- Whether the call came upon a defect or reports a failure. -/
def isFailure : Except Defect Report → Bool
  | .error _ => true
  | .ok report => report.isFailure

/-- A call that may fail. -/
inductive Call where
  | makeScope (parent : ScopeId) (kind : ScopeKind) (symbol : Option SymbolId)
  | declare (s : ScopeId) (name : Name) (details : Details)
  | find (s : ScopeId) (name : Name)
  | erase (s : ScopeId) (name : Name)
  | findSymbol (s : ScopeId) (name : Name)
  | setImport (s : ScopeId) (policy : ImportPolicy)
  | addImportName (s : ScopeId) (name : Name)
  | addSubmodule (s : ScopeId) (name : String) (submodule : ScopeId)
  | bindSpec (d : SpecId) (s : ScopeId)
  | setSymbol (x : SymbolId)
  | setType (type : DeclType)
  | resolveValue (s : ScopeId)

/-- The tree of the session. -/
def tree (w : Workspace) : Tree := w.session.context.tree

/-- `w` with another tree. -/
def withTree (w : Workspace) (t : Tree) : Workspace :=
  { w with session := w.session.modifyTree fun _ => t }

/-- The call is on identities that exist. -/
def Call.Valid (w : Workspace) : Call → Prop
  | makeScope parent _ symbol => w.tree.HasScope parent ∧ ∀ x ∈ symbol.toList, w.tree.HasSymbol x
  | declare s _ _ => w.tree.HasScope s
  | find s _ => w.tree.HasScope s
  | erase s _ => w.tree.HasScope s
  | findSymbol s _ => w.tree.HasScope s
  | setImport s _ => w.tree.HasScope s
  | addImportName s _ => w.tree.HasScope s
  | addSubmodule s _ submodule => w.tree.HasScope s ∧ w.tree.HasScope submodule
  | bindSpec d s => w.tree.HasSpec d ∧ w.tree.HasScope s
  | setSymbol x => w.tree.HasSymbol x
  | setType type => ∀ d ∈ type.spec?.toList, w.tree.HasSpec d
  | resolveValue s => w.tree.HasScope s

instance (w : Workspace) (c : Call) : Decidable (c.Valid w) :=
  match c with
  | .makeScope _ _ _ => inferInstanceAs (Decidable (_ ∧ _))
  | .declare s _ _ => inferInstanceAs (Decidable (w.tree.HasScope s))
  | .find s _ => inferInstanceAs (Decidable (w.tree.HasScope s))
  | .erase s _ => inferInstanceAs (Decidable (w.tree.HasScope s))
  | .findSymbol s _ => inferInstanceAs (Decidable (w.tree.HasScope s))
  | .setImport s _ => inferInstanceAs (Decidable (w.tree.HasScope s))
  | .addImportName s _ => inferInstanceAs (Decidable (w.tree.HasScope s))
  | .addSubmodule _ _ _ => inferInstanceAs (Decidable (_ ∧ _))
  | .bindSpec _ _ => inferInstanceAs (Decidable (_ ∧ _))
  | .setSymbol x => inferInstanceAs (Decidable (w.tree.HasSymbol x))
  | .setType type => inferInstanceAs (Decidable (∀ d ∈ type.spec?.toList, w.tree.HasSpec d))
  | .resolveValue s => inferInstanceAs (Decidable (w.tree.HasScope s))

/-! ## Step by step -/

/-- Steps on the tree of the session. -/
def onTree {α : Type} (steps : Steps Tree α) : Steps Workspace α :=
  ExceptT.mk fun w => ((steps.outcome w.tree).1, w.withTree (steps.outcome w.tree).2)

/-- Sets the symbol of the procedure, unless its type is known. -/
def setSymbol (x : SymbolId) : Steps Workspace Unit := do
  let w ← get
  Steps.check (w.interface.type? = none) .interfaceConflict
  modify fun w => { w with interface := .symbol x }

/-- Sets the type of the procedure, unless its symbol is known. -/
def setType (type : DeclType) : Steps Workspace Unit := do
  let w ← get
  Steps.check (w.interface.symbol? = none) .interfaceConflict
  modify fun w => { w with interface := .result type }

/-- Settles a deferred expression, which is taken out of the value first, and tells whether it is
resolved. -/
def resolveValue (s : ScopeId) : Steps Workspace Bool := do
  let w ← get
  Steps.check (w.value.explicit?.isSome) .valueNotExplicit
  match w.value.explicit? with
  | some (.resolved _) => return true
  | some (.pending phrase) =>
    modify fun w => { w with value := .explicit .empty }
    let (result, session) := w.session.analyze s phrase
    modify fun w => { w with session := session }
    match result with
    | none =>
      modify fun w => { w with value := .explicit .failed }
      return false
    | some e =>
      let (folded, session) := session.fold e
      modify fun w => { w with session := session }
      modify fun w => { w with value := .explicit (.resolved folded) }
      return true
  | some .empty =>
    modify fun w => { w with value := .explicit .failed }
    return false
  | _ => return false

/-- What the call does. -/
def Call.steps : Call → Steps Workspace Report
  | makeScope parent kind symbol => Report.created <$> onTree (.makeScope parent kind symbol)
  | declare s name details => Report.declared <$> onTree (.declare s name details)
  | find s name => Report.found <$> onTree (.find s name)
  | erase s name => Report.removed <$> onTree (.erase s name)
  | findSymbol s name => Report.found <$> onTree (.findSymbol s name)
  | setImport s policy => Report.violation <$> onTree (.setImport s policy)
  | addImportName s name => Report.success <$> onTree (.addImportName s name)
  | addSubmodule s name submodule => Report.success <$> onTree (.addSubmodule s name submodule)
  | bindSpec d s => (fun _ => Report.done) <$> onTree (.bindSpec d s)
  | setSymbol x => (fun _ => Report.done) <$> Workspace.setSymbol x
  | setType type => (fun _ => Report.done) <$> Workspace.setType type
  | resolveValue s => Report.success <$> Workspace.resolveValue s

/-- What the call comes to, by the operation that it makes. -/
def Call.result (w : Workspace) : Call → Except Defect Report × Workspace
  | makeScope parent kind symbol =>
    match w.tree.makeScope parent kind symbol with
    | .ok (s, t) => (.ok (.created s), w.withTree t)
    | .error d => (.error d, w)
  | declare s name details =>
    match w.tree.declare s name details with
    | .ok (x, t) => (.ok (.declared (.ok x)), w.withTree t)
    | .error d => (.ok (.declared (.error d)), w)
  | find s name => (.ok (.found (w.tree.find s name).1), w.withTree (w.tree.find s name).2)
  | erase s name => (.ok (.removed (w.tree.erase s name).1), w.withTree (w.tree.erase s name).2)
  | findSymbol s name =>
    (.ok (.found (w.tree.findSymbol s name).1), w.withTree (w.tree.findSymbol s name).2)
  | setImport s policy =>
    (.ok (.violation (w.tree.setImport s policy).1), w.withTree (w.tree.setImport s policy).2)
  | addImportName s name =>
    match w.tree.addImportName s name with
    | .ok (b, t) => (.ok (.success b), w.withTree t)
    | .error d => (.error d, w)
  | addSubmodule s name submodule =>
    (.ok (.success (w.tree.addSubmodule s name submodule).1),
      w.withTree (w.tree.addSubmodule s name submodule).2)
  | bindSpec d s =>
    match w.tree.bindSpec d s with
    | .ok t => (.ok .done, w.withTree t)
    | .error d => (.error d, w)
  | setSymbol x =>
    match w.interface.setSymbol x with
    | .ok interface => (.ok .done, { w with interface := interface })
    | .error d => (.error d, w)
  | setType type =>
    match w.interface.setType type with
    | .ok interface => (.ok .done, { w with interface := interface })
    | .error d => (.error d, w)
  | resolveValue s =>
    match w.session.settleParam s w.value with
    | .ok (value, session) =>
      (.ok (.success (value.explicit?.any fun d => d.expr?.isSome)),
        { w with session := session, value := value })
    | .error d => (.error d, w)

section

variable {w : Workspace}

theorem withTree_tree (w : Workspace) :
  w.withTree w.tree = w
  := rfl

/-- A function of what steps give does not change what they write. -/
theorem outcome_map {α β : Type} (f : α → β) (steps : Steps Workspace α) (w : Workspace) :
  (f <$> steps).outcome w = ((steps.outcome w).1.map f, (steps.outcome w).2)
  := by
  change (steps >>= fun a => pure (f a)).outcome w = _
  rw [Steps.outcome_bind]
  rcases steps.outcome w with ⟨_ | _, _⟩ <;> rfl

theorem outcome_onTree {α : Type} (steps : Steps Tree α) (w : Workspace) :
  (onTree steps).outcome w = ((steps.outcome w.tree).1, w.withTree (steps.outcome w.tree).2)
  := rfl

/-- The symbol of an interface is set, or refused before anything is written. -/
theorem outcome_setSymbol (w : Workspace) (x : SymbolId) :
  (setSymbol x).outcome w = match w.interface.setSymbol x with
    | .ok interface => (.ok (), { w with interface := interface })
    | .error d => (.error d, w)
  := by
  rw [setSymbol, Steps.outcome_get_bind, Steps.outcome_check_bind]
  cases w.interface <;> rfl

/-- The type of an interface is set, or refused before anything is written. -/
theorem outcome_setType (w : Workspace) (type : DeclType) :
  (setType type).outcome w = match w.interface.setType type with
    | .ok interface => (.ok (), { w with interface := interface })
    | .error d => (.error d, w)
  := by
  rw [setType, Steps.outcome_get_bind, Steps.outcome_check_bind]
  cases w.interface <;> rfl

/-- A parameter value is settled, or is found not to be an expression before anything is written. -/
theorem outcome_resolveValue (w : Workspace) (s : ScopeId) :
  (resolveValue s).outcome w = match w.session.settleParam s w.value with
    | .ok (value, session) =>
      (.ok (value.explicit?.any fun d => d.expr?.isSome),
        { w with session := session, value := value })
    | .error d => (.error d, w)
  := by
  obtain ⟨session, interface, value⟩ := w
  rw [resolveValue, Steps.outcome_get_bind, Steps.outcome_check_bind]
  cases value with
  | assumed | colon => rfl
  | explicit d =>
    cases d with
    | empty | failed | resolved => rfl
    | pending phrase =>
      simp only [Session.settleParam, Session.settleExtent, Session.settle, Extent.explicit?]
      rcases session.analyze s phrase with ⟨result, next⟩
      cases result <;> rfl

/-- Every call does in steps what it does at once. -/
theorem outcome_steps (hcoherent : w.tree.Coherent) (hsound : w.tree.Sound) {c : Call}
    (hc : c.Valid w) :
  c.steps.outcome w = c.result w
  := by
  cases c with
  | makeScope parent kind symbol =>
    rw [Call.steps, outcome_map, outcome_onTree, Tree.outcome_makeScope, Call.result]
    cases w.tree.makeScope parent kind symbol <;> rfl
  | declare s name details =>
    rw [Call.steps, outcome_map, outcome_onTree, Tree.outcome_declare, Call.result]
    cases w.tree.declare s name details <;> rfl
  | find s name =>
    rw [Call.steps, outcome_map, outcome_onTree, Tree.outcome_find, Call.result]
    rfl
  | erase s name =>
    rw [Call.steps, outcome_map, outcome_onTree, Tree.outcome_erase, Call.result]
    rfl
  | findSymbol s name =>
    rw [Call.steps, outcome_map, outcome_onTree, Tree.outcome_findSymbol hcoherent hsound hc,
      Call.result]
    rfl
  | setImport s policy =>
    rw [Call.steps, outcome_map, outcome_onTree, Tree.outcome_setImport, Call.result]
    rfl
  | addImportName s name =>
    rw [Call.steps, outcome_map, outcome_onTree, Tree.outcome_addImportName hcoherent hsound hc,
      Call.result]
    cases w.tree.addImportName s name <;> rfl
  | addSubmodule s name submodule =>
    rw [Call.steps, outcome_map, outcome_onTree, Tree.outcome_addSubmodule, Call.result]
    rfl
  | bindSpec d s =>
    rw [Call.steps, outcome_map, outcome_onTree, Tree.outcome_bindSpec, Call.result]
    cases w.tree.bindSpec d s <;> rfl
  | setSymbol x =>
    rw [Call.steps, outcome_map, outcome_setSymbol, Call.result]
    cases w.interface.setSymbol x <;> rfl
  | setType type =>
    rw [Call.steps, outcome_map, outcome_setType, Call.result]
    cases w.interface.setType type <;> rfl
  | resolveValue s =>
    rw [Call.steps, outcome_map, outcome_resolveValue, Call.result]
    cases w.session.settleParam s w.value <;> rfl

/-! ## Failures -/

/-- The call settles a deferred expression. -/
def Call.Settles (w : Workspace) : Call → Prop
  | resolveValue _ => ∃ d, w.value = .explicit d ∧ d.isUnresolved = true
  | _ => False

/-- A look-up that finds nothing notes no use. -/
theorem useIfFound_eq_self {t : Tree} {name : Name} {x : Option SymbolId}
    (h : isFailure (.ok (.found (t.useIfFound name x).1)) = true) :
  (t.useIfFound name x).2 = t
  := by
  cases x with
  | none => rfl
  | some x => contradiction

/-- A call that fails, and does not settle an expression, leaves everything as it was. -/
theorem result_of_isFailure {c : Call} (h : isFailure (c.result w).1 = true)
    (hsettles : ¬ c.Settles w) :
  (c.result w).2 = w
  := by
  cases c with
  | makeScope | declare | bindSpec | setSymbol | setType =>
    rw [Call.result] at h ⊢
    split
    · next hdone =>
      rw [hdone] at h
      contradiction
    · rfl
  | find s name =>
    rw [Call.result, Tree.find] at h ⊢
    -- a use is noted only where the name is found
    rw [useIfFound_eq_self h, withTree_tree]
  | erase s name =>
    rw [Call.result, Tree.erase] at h ⊢
    cases hx : w.tree.local? s name.text with
    | none => rfl
    | some x =>
      rw [hx] at h
      contradiction
  | findSymbol s name =>
    rw [Call.result, Tree.findSymbol] at h ⊢
    rw [useIfFound_eq_self h, withTree_tree]
  | setImport s policy =>
    rw [Call.result, Tree.setImport] at h ⊢
    cases hfirst : (w.tree.scope s).importPolicy with
    | some first => rfl
    | none =>
      rw [hfirst] at h
      contradiction
  | addImportName s name =>
    rw [Call.result, Tree.addImportName] at h ⊢
    cases hparent : (w.tree.scope s).parent with
    | none => rfl
    | some p =>
      simp only [hparent, Tree.findSymbol] at h ⊢
      cases hx : w.tree.visible? p name.text with
      | none => rfl
      | some x =>
        rw [hx] at h
        contradiction
  | addSubmodule s name submodule =>
    rw [Call.result, Tree.addSubmodule] at h ⊢
    split at h
    · next htaken => rw [if_pos htaken, withTree_tree]
    · contradiction
  | resolveValue s =>
    obtain ⟨session, interface, value⟩ := w
    cases value with
    | assumed | colon => rfl
    | explicit d =>
      -- only what waits is settled by the call, and what is resolved already is no failure
      cases d with
      | empty | pending => exact absurd ⟨_, rfl, rfl⟩ hsettles
      | failed => rfl
      | resolved e => contradiction

/-- An expression that cannot be resolved has failed, and its analysis left only messages and
occurrences. -/
theorem result_of_settles {c : Call} (h : isFailure (c.result w).1 = true)
    (hsettles : c.Settles w) :
  ∃ session, (c.result w).2 = { w with session := session, value := .explicit .failed }
    ∧ w.session.Extends session
  := by
  cases c with
  | resolveValue s =>
    obtain ⟨session, interface, value⟩ := w
    obtain ⟨d, rfl, hd⟩ := hsettles
    have hextends := session.extends_settle s d
    have hsettled := session.not_isUnresolved_settle s d
    rw [Call.result] at h ⊢
    simp only [Session.settleParam, Session.settleExtent] at h ⊢
    rcases hr : session.settle s d with ⟨value, next⟩
    rw [hr] at h hextends hsettled
    cases value with
    | empty | pending | resolved => contradiction
    | failed => exact ⟨next, rfl, hextends⟩
  | _ => contradiction

end

/-- Calls come step by step to what the operations that they make come to at once.  Whatever a call
that fails finds out on the way, it leaves the workspace as it was.  Only a deferred expression
that is settled and cannot be resolved has failed for good, and messages and occurrences of its
analysis are kept. -/
theorem outcome_of_isFailure {w : Workspace} (hw : w.session.Reachable) {c : Call}
    (hc : c.Valid w) :
  c.steps.outcome w = c.result w
    ∧ (isFailure (c.steps.outcome w).1 = true →
      (¬ c.Settles w → (c.steps.outcome w).2 = w)
        ∧ (c.Settles w → ∃ session,
          (c.steps.outcome w).2 = { w with session := session, value := .explicit .failed }
            ∧ w.session.Extends session))
  := by
  have hresult := outcome_steps hw.coherent hw.sound hc
  use hresult
  intro hfailure
  rw [hresult] at hfailure ⊢
  exact ⟨result_of_isFailure hfailure, result_of_settles hfailure⟩

/-- A block stands in the definition of a derived type in a module. -/
def nestedRun : List Session.Operation :=
  let span : Span := ⟨"a.f90", 0, 1⟩
  [.onTree (.declare .global ⟨"m", span⟩ (.moduleUnit false)),
    .onTree (.makeScope .global .moduleUnit (some ⟨0⟩)),
    .onTree (.makeScope ⟨1⟩ .derivedType none),
    .onTree (.makeScope ⟨2⟩ .block none)]

/-- The name is looked up in all scopes around the block, and nothing changes as it is not
found. -/
theorem outcome_of_isFailure_nestedRun :
  let w : Workspace := ⟨(Session.initial .standard).run nestedRun, .unknown, .assumed⟩
  let c : Call := .addImportName ⟨3⟩ ⟨"n", ⟨"a.f90", 8, 9⟩⟩
  isFailure (c.steps.outcome w).1 = true ∧ (c.steps.outcome w).2 = w
    ∧ c.steps.outcome w = c.result w
  := by
  intro w c
  have hvalid : (Session.initial .standard).ValidRun nestedRun := by decide +kernel
  have hreachable : w.session.Reachable := (Session.Reachable.initial .standard).run hvalid
  have hc : c.Valid w := by decide +kernel
  have hfailure : isFailure (c.result w).1 = true := by decide +kernel
  obtain ⟨hresult, hatomic⟩ := outcome_of_isFailure hreachable hc
  rw [← hresult] at hfailure
  exact ⟨hfailure, (hatomic hfailure).1 not_false, hresult⟩

/-- A value that is a name nobody declared cannot be resolved.  It does not stay as it was, nor do
the messages. -/
theorem not_forall_outcome_eq_self :
  ¬ ∀ (w : Workspace) (c : Call), w.session.Reachable → c.Valid w →
    isFailure (c.steps.outcome w).1 = true → (c.steps.outcome w).2 = w
  := by
  intro h
  have hsame := h
    ⟨.initial .standard, .unknown, .explicit (.pending (.designator ⟨"x", ⟨"t.f90", 0, 1⟩⟩))⟩
    (.resolveValue .global) (.initial .standard) (by decide) (by decide +kernel)
  have hvalue := congrArg Workspace.value hsame
  revert hvalue
  decide +kernel

end Workspace

end FortranScope
