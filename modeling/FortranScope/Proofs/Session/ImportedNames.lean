import FortranScope.Proofs.Session.Imports
import FortranScope.Proofs.Tree.Reordering

/-!
# Imported names

Under the policy `ONLY` a scope knows the names that it declares and those that were let in.  A name
is let in if it is known around the scope at that moment, and it stays let in: what a scope has let
in are the names of the imports of a run that succeeded (`mem_importNames_run`).  A look-up of such
a name is a look-up around the scope (`visible?_of_only`), which finds again what it has found, as
long as the scopes there give the same symbol to the name and keep their policies
(`associated?_of_retains`).
-/

namespace FortranScope

namespace Tree

variable {t t' : Tree} {s p : ScopeId} {text : String}

/-! ## Imports that succeed -/

/-- Whether an import of the name into `s` succeeds. -/
def importSucceeds (t : Tree) (s : ScopeId) (name : Name) : Bool :=
  match t.addImportName s name with
  | .ok (known, _) => known
  | .error _ => false

/-- A name that is not found in the scope around is not let in, and nothing changes. -/
theorem addImportName_of_eq_none {name : Name} (hp : (t.scope s).parent = some p)
    (h : t.visible? p name.text = none) :
  t.addImportName s name = .ok (false, t)
  := by
  rw [addImportName, hp]
  simp only [findSymbol, h, useIfFound]

/-- A name that is known around the scope is let in, and the look-up there is noted. -/
theorem addImportName_of_eq_some {name : Name} {x : SymbolId}
    (hp : (t.scope s).parent = some p) (h : t.visible? p name.text = some x) :
  t.addImportName s name = .ok (true, (t.addOccurrence x .used name.span).modifyScope s fun q =>
    { q with importNames := q.importNames.insert name.text })
  := by
  rw [addImportName, hp]
  simp only [findSymbol, h, useIfFound]

/-- An import succeeds exactly if the name is visible from the scope around. -/
theorem importSucceeds_eq (hp : (t.scope s).parent = some p) (name : Name) :
  t.importSucceeds s name = (t.visible? p name.text).isSome
  := by
  cases h : t.visible? p name.text with
  | none => rw [importSucceeds, addImportName_of_eq_none hp h, Option.isSome_none]
  | some x => rw [importSucceeds, addImportName_of_eq_some hp h, Option.isSome_some]

/-- The imported names are those from before and the one whose import has succeeded. -/
theorem mem_importNames_addImportName (t : Tree) (s : ScopeId) (name : Name) (text : String) :
  text ∈ ((t.after (t.addImportName s name)).scope s).importNames
    ↔ text ∈ (t.scope s).importNames ∨ t.importSucceeds s name = true ∧ name.text = text
  := by
  cases hp : (t.scope s).parent with
  | none =>
    have heq : t.addImportName s name = .error (.noParent (t.scope s).kind) := by
      rw [addImportName, hp]
    simp [importSucceeds, heq, after]
  | some p =>
    rw [importSucceeds_eq hp]
    cases h : t.visible? p name.text with
    | none => simp [addImportName_of_eq_none hp h, after]
    | some x =>
      have hs : (t.addOccurrence x .used name.span).HasScope s := hasScope_of_parent_eq_some hp
      rw [addImportName_of_eq_some hp h, after, scope_modifyScope_self _ hs, addOccurrence,
        scope_modifySymbol, List.mem_insert_iff]
      simp [or_comm, eq_comm]

/-- The name that the operation lets into `s`, if it is an import that succeeds. -/
def Operation.imported? (t : Tree) (s : ScopeId) : Operation → Option String
  | .addImportName q name => if q = s ∧ t.importSucceeds s name then some name.text else none
  | _ => none

/-- Only an operation that adds an import name imports anything. -/
theorem Operation.imported?_eq_none {o : Operation} (ho : ∀ name, o ≠ .addImportName s name)
    (t : Tree) :
  o.imported? t s = none
  := by
  unfold imported?
  split
  · next q name =>
    apply if_neg
    rintro ⟨rfl, -⟩
    exact ho name rfl
  · rfl

/-- A name is let in by its import alone, and it is never shut out again. -/
theorem mem_importNames_apply (o : Operation) (text : String) :
  text ∈ ((o.apply t).scope s).importNames
    ↔ text ∈ (t.scope s).importNames ∨ o.imported? t s = some text
  := by
  by_cases hadd : ∃ name, o = .addImportName s name
  · obtain ⟨name, rfl⟩ := hadd
    rw [Operation.apply, mem_importNames_addImportName, Operation.imported?]
    simp
  · have hne (name : Name) : o ≠ .addImportName s name := fun hname => hadd ⟨name, hname⟩
    have hnames : ((o.apply t).scope s).importNames = (t.scope s).importNames := by
      apply field_scope_apply Scope.importNames (fun _ _ _ _ => rfl)
      intro f hf q
      cases hf with
      | addImportName name => exact absurd rfl (hne name)
      | _ => rfl
    rw [hnames, Operation.imported?_eq_none hne]
    simp

/-! ## Look-ups under `ONLY` -/

/-- A scope with the policy `ONLY` that does not declare the name leaves the look-up to the scope
around it, if the name was let in. -/
theorem visible?_of_only (hp : (t.scope s).parent = some p) (hlt : p.index < s.index)
    (hkind : (t.scope s).kind ≠ .derivedType) (hglobal : (t.scope s).kind ≠ .global)
    (hpolicy : t.importPolicy s = .only) (hlocal : t.local? s text = none) :
  t.visible? s text = if text ∈ (t.scope s).importNames then t.visible? p text else none
  := by
  have himport : t.canImport s text = decide (text ∈ (t.scope s).importNames) := by
    rw [canImport, if_neg hglobal, hpolicy]
  rw [visible?, hosts, hp]
  simp only
  rw [if_pos hlt, associated?, if_neg hkind, hlocal]
  simp only [himport, decide_eq_true_eq]
  rfl

/-- The scope `q` declares the name and lets it in at `t'` as at `t`, where it may have let in more
names. -/
structure Retains (t t' : Tree) (text : String) (q : ScopeId) : Prop where
  kind : (t'.scope q).kind = (t.scope q).kind
  declared : t'.local? q text = t.local? q text
  policy : t'.importPolicy q = t.importPolicy q
  names : (t.scope q).importNames ⊆ (t'.scope q).importNames

/-- A name that could be imported still can. -/
theorem Retains.canImport {q : ScopeId} (h : t.Retains t' text q)
    (himport : t.canImport q text = true) :
  t'.canImport q text = true
  := by
  rw [canImport_iff] at himport ⊢
  obtain ⟨hglobal, hpolicy⟩ := himport
  rw [h.kind, h.policy]
  refine ⟨hglobal, ?_⟩
  rcases hpolicy with hall | hdefault | ⟨honly, hmem⟩
  · exact .inl hall
  · exact .inr (.inl hdefault)
  · exact .inr (.inr ⟨honly, h.names hmem⟩)

/-- What is found along a chain of scopes is found again. -/
theorem associated?_of_retains {chain : List ScopeId} (h : ∀ q ∈ chain, t.Retains t' text q)
    {x : SymbolId} (hx : t.associated? text chain = some x) :
  t'.associated? text chain = some x
  := by
  induction chain with
  | nil => contradiction
  | cons q outer ih =>
    obtain ⟨hq, houter⟩ := List.forall_mem_cons.mp h
    rw [associated?] at hx ⊢
    rw [hq.kind, hq.declared]
    split
    · next hkind =>
      rw [if_pos hkind] at hx
      apply ih houter hx
    · next hkind =>
      rw [if_neg hkind] at hx
      cases hlocal : t.local? q text with
      | some y =>
        rw [hlocal] at hx
        exact hx
      | none =>
        rw [hlocal, Option.ite_none_right_eq_some] at hx
        simp only
        rw [if_pos (hq.canImport hx.1)]
        apply ih houter hx.2

/-- The scopes around an existing one are settled when it is created. -/
theorem Persists.hosts (h : t.Persists t') (hs : t.HasScope s) :
  t'.hosts s = t.hosts s
  := by
  induction hi : s.index using Nat.strongRecOn generalizing s with
  | ind i ih =>
    rw [Tree.hosts, h.parent hs]
    conv_rhs => rw [Tree.hosts]
    cases (t.scope s).parent with
    | none => rfl
    | some p =>
      simp only
      split
      · next hlt => rw [ih p.index (hi ▸ hlt) (Nat.lt_trans hlt hs) rfl]
      · rfl

/-- Only an `IMPORT` statement gives a scope this policy. -/
theorem importPolicy_eq_only_iff :
  t.importPolicy s = .only ↔ (t.scope s).importPolicy = some .only
  := by
  rw [importPolicy]
  cases (t.scope s).importPolicy with
  | some policy => simp
  | none => cases t.isInterfaceBody s <;> simp

/-- The hosts of a scope exist. -/
theorem Coherent.hasScope_of_mem_hosts (h : t.Coherent) (hs : t.HasScope s) {q : ScopeId}
    (hq : q ∈ t.hosts s) :
  t.HasScope q
  := by
  rcases eq_or_encloses_of_mem_hosts hq with rfl | hencloses
  · exact hs
  · exact Nat.lt_trans (h.index_lt_of_encloses hencloses) hs

/-- What is found from a scope is found again later, when the scopes around it have let in more
names, if they declare the name as before and keep their policies. -/
theorem Coherent.visible?_of_persists (h : t.Coherent) (ht : t.Persists t') (hp : t.HasScope p)
    (hnames : ∀ q, (t.scope q).importNames ⊆ (t'.scope q).importNames)
    (hhosts : ∀ q ∈ t.hosts p,
      t'.local? q text = t.local? q text ∧ t'.importPolicy q = t.importPolicy q)
    {x : SymbolId} (hx : t.visible? p text = some x) :
  t'.visible? p text = some x
  := by
  have hretains : ∀ q ∈ t.hosts p, t.Retains t' text q := by
    intro q hq
    obtain ⟨hdeclared, hpolicy⟩ := hhosts q hq
    exact ⟨ht.kind (h.hasScope_of_mem_hosts hp hq), hdeclared, hpolicy, hnames q⟩
  rw [visible?, ht.hosts hp]
  apply associated?_of_retains hretains hx

end Tree

namespace Session

variable {r : Session} {s : ScopeId}

/-! ## Imports in the course of a run -/

/-- The name that the operation lets into `s`, if it is an import that succeeds. -/
def Operation.imported? (r : Session) (s : ScopeId) : Operation → Option String
  | .onTree o => o.imported? r.context.tree s
  | _ => none

/-- The names that the operations of a run let into `s`. -/
def importedNames (s : ScopeId) : Session → List Operation → List String
  | _, [] => []
  | r, o :: rest => (o.imported? r s).toList ++ importedNames s (o.apply r) rest

/-- After an operation the imported names are those from before and the one that it imports. -/
theorem mem_importNames_apply (o : Operation) (text : String) :
  text ∈ ((o.apply r).context.tree.scope s).importNames
    ↔ text ∈ (r.context.tree.scope s).importNames ∨ o.imported? r s = some text
  := by
  cases o with
  | onTree o => apply Tree.mem_importNames_apply
  | say d => simp [Operation.apply, Operation.imported?, Context.say]
  | analyze q phrase =>
    obtain ⟨gained, hgained⟩ := (r.extends_analyze q phrase).tree
    simp [Operation.apply, hgained.scope, Operation.imported?]
  | fold e => simp [Operation.apply, Operation.imported?, Session.fold]
  | resolve =>
    have hscope : r.pass.session.context.tree.scope s = r.context.tree.scope s :=
      Tree.scope_eq_of_outline_eq r.settles_pass.outline s
    rw [Operation.apply, resolve_eq, hscope]
    simp [Operation.imported?]

/-- What a scope has let in after a run is what it had let in before and what the imports of the run
let in that succeeded. -/
theorem mem_importNames_run (operations : List Operation) (text : String) :
  text ∈ ((r.run operations).context.tree.scope s).importNames
    ↔ text ∈ (r.context.tree.scope s).importNames ∨ text ∈ importedNames s r operations
  := by
  induction operations generalizing r with
  | nil => simp [run, importedNames]
  | cons o rest ih =>
    have hrest := ih (r := o.apply r)
    rw [mem_importNames_apply] at hrest
    rw [importedNames, List.mem_append, Option.mem_toList, ← or_assoc]
    exact hrest

/-- An imported name stays imported. -/
theorem importNames_subset_run (r : Session) (s : ScopeId) (operations : List Operation) :
  (r.context.tree.scope s).importNames ⊆ ((r.run operations).context.tree.scope s).importNames
  := by
  intro text htext
  exact (mem_importNames_run operations text).mpr (.inl htext)

/-- The imported names of a scope are those imported in its history, and no others. -/
theorem mem_importNames_run_initial (config : Config) (history : List Operation) (text : String) :
  text ∈ (((initial config).run history).context.tree.scope s).importNames
    ↔ text ∈ importedNames s (initial config) history
  := by
  have hempty : ((initial config).context.tree.scope s).importNames = [] := by
    obtain ⟨i⟩ := s
    cases i <;> rfl
  rw [mem_importNames_run, hempty]
  simp

/-! ## Look-ups in the course of a run -/

/-- What an import finds around `s` is let in for the rest of the run. -/
theorem mem_importNames_run_addImportName {p : ScopeId}
    (hp : (r.context.tree.scope s).parent = some p) (name : Name)
    (h : (r.context.tree.visible? p name.text).isSome) (operations : List Operation) :
  name.text
    ∈ ((r.run (.onTree (.addImportName s name) :: operations)).context.tree.scope s).importNames
  := by
  have hsucceeds : r.context.tree.importSucceeds s name = true := by
    rw [Tree.importSucceeds_eq hp, h]
  rw [mem_importNames_run, importedNames, List.mem_append, Option.mem_toList]
  exact .inr (.inl (if_pos ⟨rfl, hsucceeds⟩))

section

variable {p : ScopeId} (hr : r.Reachable) (hp : (r.context.tree.scope s).parent = some p)
  (hkind : (r.context.tree.scope s).kind ≠ .derivedType)
  (hpolicy : r.context.tree.importPolicy s = .only)

include hr hp hkind hpolicy

/-- `ONLY` stays in force, so that later look-ups from `s` are look-ups of names that were let in
from the same scope around it. -/
theorem visible?_run_of_only (operations : List Operation) {text : String}
    (hlocal : (r.run operations).context.tree.local? s text = none) :
  (r.run operations).context.tree.visible? s text
    = if text ∈ ((r.run operations).context.tree.scope s).importNames then
        (r.run operations).context.tree.visible? p text
      else none
  := by
  have hs := Tree.hasScope_of_parent_eq_some hp
  have hlt := hr.coherent.index_parent_lt hs hp
  have hpersists := r.persists_run operations
  have hglobal : (r.context.tree.scope s).kind ≠ .global := by
    rw [Ne, (hr.sound.scope s hs).kind]
    rintro rfl
    exact absurd hlt (Nat.not_lt_zero _)
  have honly : (r.run operations).context.tree.importPolicy s = .only := by
    apply Tree.importPolicy_eq
    apply policy_run_of_eq_some (Tree.importPolicy_eq_only_iff.mp hpolicy)
  apply Tree.visible?_of_only _ hlt _ _ honly hlocal
  · rw [hpersists.parent hs, hp]
  · rw [hpersists.kind hs]
    exact hkind
  · rw [hpersists.kind hs]
    exact hglobal

/-- A name that was found around `s` and let in is found from `s` ever after. -/
theorem visible?_run_of_import (name : Name) {x : SymbolId}
    (hx : r.context.tree.visible? p name.text = some x) (operations : List Operation)
    {later : Tree}
    (hlater : (r.run (.onTree (.addImportName s name) :: operations)).context.tree = later)
    (hhosts : ∀ q ∈ r.context.tree.hosts p,
      later.local? q name.text = r.context.tree.local? q name.text
        ∧ later.importPolicy q = r.context.tree.importPolicy q)
    (hlocal : later.local? s name.text = none) :
  later.visible? s name.text = some x
  := by
  subst hlater
  have hs := Tree.hasScope_of_parent_eq_some hp
  have hknown : (r.context.tree.visible? p name.text).isSome := by rw [hx, Option.isSome_some]
  rw [visible?_run_of_only hr hp hkind hpolicy _ hlocal,
    if_pos (mem_importNames_run_addImportName hp name hknown operations)]
  apply hr.coherent.visible?_of_persists (r.persists_run _) _ _ hhosts hx
  · apply hr.coherent.hasScope_of_parent hs hp
  · intro q
    apply importNames_subset_run

end

/-- In a scope `s` under `ONLY`, an import succeeds just if the name is found around `s`.  What is
found then is found from `s` ever after, unless `s` itself declares the name, or a scope around `s`
gives the name another meaning or gets another policy.  A name that no import has let in is not
found from `s`, unless `s` declares it, and what was let in stays so. -/
theorem imports_of_only {config : Config} {history : List Operation}
    (hhistory : (initial config).ValidRun history) (hrun : (initial config).run history = r)
    (hs : r.context.tree.HasScope s) (hglobal : s ≠ .global)
    (hkind : (r.context.tree.scope s).kind ≠ .derivedType)
    (hpolicy : r.context.tree.importPolicy s = .only) :
  ∃ p, (r.context.tree.scope s).parent = some p
    ∧ (∀ name, ∃ t, r.context.tree.addImportName s name
      = .ok ((r.context.tree.findSymbol p name).1.isSome, t))
    ∧ (∀ name x, (r.context.tree.findSymbol p name).1 = some x → ∀ operations,
      let later := (r.run (.onTree (.addImportName s name) :: operations)).context.tree
      (∀ q ∈ r.context.tree.hosts p, later.local? q name.text = r.context.tree.local? q name.text
        ∧ later.importPolicy q = r.context.tree.importPolicy q) →
      later.local? s name.text = none →
      ∀ use : Name, use.text = name.text → (later.findSymbol s use).1 = some x)
    ∧ (∀ name : Name, name.text ∉ importedNames s (initial config) history →
      r.context.tree.local? s name.text = none → (r.context.tree.findSymbol s name).1 = none)
    ∧ ∀ operations,
      (r.context.tree.scope s).importNames ⊆ ((r.run operations).context.tree.scope s).importNames
  := by
  have hr : r.Reachable := hrun ▸ (Reachable.initial config).run hhistory
  obtain ⟨p, hp, -⟩ := hr.coherent.parent s hs hglobal
  use p, hp
  refine ⟨?succeeds, ?found, ?hidden, r.importNames_subset_run s⟩
  case succeeds =>
    intro name
    rw [Tree.findSymbol, Tree.fst_useIfFound]
    cases hx : r.context.tree.visible? p name.text with
    | none => exact ⟨_, Tree.addImportName_of_eq_none hp hx⟩
    | some x => exact ⟨_, Tree.addImportName_of_eq_some hp hx⟩
  case found =>
    intro name x hx operations later hhosts hlocal use huse
    rw [Tree.findSymbol, Tree.fst_useIfFound] at hx ⊢
    rw [huse]
    apply visible?_run_of_import hr hp hkind hpolicy name hx operations rfl hhosts hlocal
  case hidden =>
    intro name hname hlocal
    rw [← mem_importNames_run_initial, hrun] at hname
    rw [Tree.findSymbol, Tree.fst_useIfFound]
    apply (visible?_run_of_only hr hp hkind hpolicy [] hlocal).trans
    apply if_neg hname

/-- A block in the definition of a derived type in a module that declares `n` and `k`.  The block
lets in `k` alone. -/
def blockRun : List Operation :=
  [.onTree (.declare .global ⟨"m", ⟨"a.f90", 0, 1⟩⟩ (.moduleUnit false)),
    .onTree (.makeScope .global .moduleUnit (some ⟨0⟩)),
    .onTree (.declare ⟨1⟩ ⟨"n", ⟨"a.f90", 2, 3⟩⟩ (.object ⟨none, none, []⟩)),
    .onTree (.declare ⟨1⟩ ⟨"k", ⟨"a.f90", 4, 5⟩⟩ (.object ⟨none, none, []⟩)),
    .onTree (.makeScope ⟨1⟩ .derivedType none),
    .onTree (.makeScope ⟨2⟩ .block none),
    .onTree (.setImport ⟨3⟩ .only),
    .onTree (.addImportName ⟨3⟩ ⟨"k", ⟨"a.f90", 6, 7⟩⟩)]

/-- The name `n` is found from the block once it is let in, and it stays so while other names are
imported and looked for, the module says `IMPORT` and a name is declared in the block. -/
theorem imports_of_only_blockRun :
  let r := (initial .standard).run blockRun
  let n : Name := ⟨"n", ⟨"a.f90", 8, 9⟩⟩
  let m : Name := ⟨"m", ⟨"a.f90", 10, 11⟩⟩
  let i : Name := ⟨"i", ⟨"a.f90", 12, 13⟩⟩
  let operations : List Operation := [.onTree (.addImportName ⟨3⟩ m),
    .onTree (.addImportName ⟨3⟩ i), .onTree (.findSymbol ⟨3⟩ m), .onTree (.setImport ⟨1⟩ .default),
    .onTree (.declare ⟨3⟩ i (.object ⟨none, none, []⟩)), .resolve]
  let later := (r.run (.onTree (.addImportName ⟨3⟩ n) :: operations)).context.tree
  (initial .standard).ValidRun blockRun ∧ r.context.tree.HasScope ⟨3⟩
    ∧ (r.context.tree.scope ⟨3⟩).kind ≠ .derivedType ∧ r.context.tree.importPolicy ⟨3⟩ = .only
    ∧ (∃ t, r.context.tree.addImportName ⟨3⟩ n = .ok (true, t))
    ∧ (r.context.tree.findSymbol ⟨3⟩ n).1 = none
    ∧ (later.findSymbol ⟨3⟩ n).1 = some ⟨1⟩
  := by
  intro r n m i operations later
  have hvalid : (initial .standard).ValidRun blockRun := by decide +kernel
  have hrun : (initial .standard).run blockRun = r := rfl
  have hs : r.context.tree.HasScope ⟨3⟩ := by decide +kernel
  have hkind : (r.context.tree.scope ⟨3⟩).kind ≠ .derivedType := by decide +kernel
  have hpolicy : r.context.tree.importPolicy ⟨3⟩ = .only := by decide +kernel
  obtain ⟨p, hp, hsucceeds, hfound, hhidden, -⟩ :=
    imports_of_only hvalid hrun hs (by decide) hkind hpolicy
  have hparent : (r.context.tree.scope ⟨3⟩).parent = some ⟨2⟩ := by decide +kernel
  obtain rfl := Option.some.inj (hp.symm.trans hparent)
  have hx : (r.context.tree.findSymbol ⟨2⟩ n).1 = some ⟨1⟩ := by decide +kernel
  refine ⟨hvalid, hs, hkind, hpolicy, ?_, ?_, ?_⟩
  · have hknown := hsucceeds n
    rw [hx] at hknown
    exact hknown
  · exact hhidden n (by decide +kernel) (by decide +kernel)
  · exact hfound n ⟨1⟩ hx operations (by decide +kernel) (by decide +kernel) n rfl

end Session

end FortranScope
