import FortranScope.Analysis
import FortranScope.Proofs.Resolution.Run

/-!
# Host association

A name is looked for from a scope outward, past the definitions of derived types.  The first
scope that declares it decides, and every scope inside that one has to let the name in.  Looking
a name up notes the use of the symbol that is found and changes nothing else.
-/

namespace FortranScope

/-- The scope without its children, which look-ups do not depend on. -/
def Scope.childless (q : Scope) : Scope := { q with children := [] }

/-- Scopes that differ in their children at most agree on whatever does not depend on them. -/
theorem Scope.field_congr {α : Type} (field : Scope → α)
    (hfield : ∀ q : Scope, field q.childless = field q) {q q' : Scope}
    (h : q'.childless = q.childless) :
  field q' = field q
  := by
  rw [← hfield, h, hfield]

namespace Tree

variable {t : Tree}

/-! ## Scopes from the inside out -/

/-- The chain consists of the scope `s`, the scope around it, and so on up to one that has no
parent. -/
inductive Outward (t : Tree) : ScopeId → List ScopeId → Prop
  | outermost {s : ScopeId} (h : (t.scope s).parent = none) : t.Outward s [s]
  | inner {s p : ScopeId} {chain : List ScopeId} (h : (t.scope s).parent = some p)
      (hp : t.Outward p chain) : t.Outward s (s :: chain)

/-- The chain outward from a scope is determined. -/
theorem Outward.eq {s : ScopeId} {chain chain' : List ScopeId} (h : t.Outward s chain)
    (h' : t.Outward s chain') :
  chain' = chain
  := by
  induction h generalizing chain' with
  | outermost h =>
    cases h' with
    | outermost => rfl
    | inner h' => simp [h] at h'
  | inner h _ ih =>
    cases h' with
    | outermost h' => simp [h] at h'
    | inner h' hp' =>
      obtain rfl := Option.some.inj (h.symm.trans h')
      rw [ih hp']

/-- Every scope but the global one is younger than the one around it. -/
theorem Coherent.index_parent_lt (h : t.Coherent) {s p : ScopeId} (hs : t.HasScope s)
    (hp : (t.scope s).parent = some p) :
  p.index < s.index
  := by
  have hglobal : s ≠ .global := by
    rintro rfl
    rw [h.rootParent] at hp
    contradiction
  obtain ⟨p', hp', hlt⟩ := h.parent s hs hglobal
  obtain rfl := Option.some.inj (hp'.symm.trans hp)
  apply hlt

/-- The parent of a scope exists. -/
theorem Coherent.hasScope_of_parent (h : t.Coherent) {s p : ScopeId} (hs : t.HasScope s)
    (hp : (t.scope s).parent = some p) :
  t.HasScope p
  := Nat.lt_trans (h.index_parent_lt hs hp) hs

/-- Only the global scope has no parent. -/
theorem Coherent.eq_global_of_parent_eq_none (h : t.Coherent) {s : ScopeId} (hs : t.HasScope s)
    (hparent : (t.scope s).parent = none) :
  s = .global
  := by
  by_contra hglobal
  obtain ⟨p, hp, -⟩ := h.parent s hs hglobal
  rw [hparent] at hp
  contradiction

/-- In a coherent tree `Tree.hosts` ends at a scope without parent. -/
theorem Coherent.outward_hosts (h : t.Coherent) {s : ScopeId} (hs : t.HasScope s) :
  t.Outward s (t.hosts s)
  := by
  induction hi : s.index using Nat.strongRecOn generalizing s with
  | ind i ih =>
    rw [hosts]
    split
    · next hparent => apply Outward.outermost hparent
    · next p hparent =>
      have hlt := h.index_parent_lt hs hparent
      rw [if_pos hlt]
      apply Outward.inner hparent
      exact ih p.index (hi ▸ hlt) (h.hasScope_of_parent hs hparent) rfl

/-- Every scope is among its own hosts. -/
theorem self_mem_hosts (t : Tree) (s : ScopeId) :
  s ∈ t.hosts s
  := by
  rw [hosts]
  split
  · apply List.mem_cons_self
  · split <;> apply List.mem_cons_self

/-! ## Look-up along a chain -/

/-- The scopes of a chain without the definitions of derived types. -/
def levels (t : Tree) (chain : List ScopeId) : List ScopeId :=
  chain.filter fun s => (t.scope s).kind ≠ .derivedType

/-- The definition of a derived type is no level of a look-up. -/
theorem levels_cons_of_derivedType {s : ScopeId} {chain : List ScopeId}
    (h : (t.scope s).kind = .derivedType) :
  t.levels (s :: chain) = t.levels chain
  := by
  simp [levels, h]

/-- Every other scope is the first level of a look-up from it. -/
theorem levels_cons_of_ne {s : ScopeId} {chain : List ScopeId}
    (h : (t.scope s).kind ≠ .derivedType) :
  t.levels (s :: chain) = s :: t.levels chain
  := by
  simp [levels, h]

/-- The first level that declares the name `text` gives it to the symbol `x`, and the levels
before let the name in. -/
def FoundAlong (t : Tree) (text : String) (levels : List ScopeId) (x : SymbolId) : Prop :=
  ∃ inner q outer, levels = inner ++ q :: outer ∧ t.local? q text = some x
    ∧ ∀ s ∈ inner, t.local? s text = none ∧ t.canImport s text = true

/-- Along no levels nothing is found. -/
theorem foundAlong_nil (t : Tree) (text : String) (x : SymbolId) :
  ¬ t.FoundAlong text [] x
  := by
  rintro ⟨inner, q, outer, h, -⟩
  simp at h

/-- The first level declares the name, or lets it in from the next one. -/
theorem foundAlong_cons_iff {text : String} {s : ScopeId} {levels : List ScopeId}
    {x : SymbolId} :
  t.FoundAlong text (s :: levels) x
    ↔ t.local? s text = some x
      ∨ t.local? s text = none ∧ t.canImport s text = true ∧ t.FoundAlong text levels x
  := by
  constructor
  · rintro ⟨inner, q, outer, hlevels, hq, hinner⟩
    cases inner with
    | nil =>
      obtain ⟨rfl, -⟩ := List.cons.inj hlevels
      exact .inl hq
    | cons first inner =>
      obtain ⟨rfl, hrest⟩ := List.cons.inj hlevels
      obtain ⟨hfirst, hinner⟩ := List.forall_mem_cons.mp hinner
      exact .inr ⟨hfirst.1, hfirst.2, inner, q, outer, hrest, hq, hinner⟩
  · rintro (hs | ⟨hs, himport, inner, q, outer, rfl, hq, hinner⟩)
    · refine ⟨[], s, levels, rfl, hs, ?_⟩
      intro q hq
      contradiction
    · refine ⟨s :: inner, q, outer, rfl, hq, ?_⟩
      exact List.forall_mem_cons.mpr ⟨⟨hs, himport⟩, hinner⟩

/-- A symbol is associated along a chain exactly if it is found along its levels. -/
theorem associated?_eq_some_iff {text : String} {chain : List ScopeId} {x : SymbolId} :
  t.associated? text chain = some x ↔ t.FoundAlong text (t.levels chain) x
  := by
  induction chain with
  | nil =>
    constructor
    · intro h
      contradiction
    · intro h
      exact absurd h (t.foundAlong_nil text x)
  | cons s outer ih =>
    rw [associated?]
    by_cases hkind : (t.scope s).kind = .derivedType
    · rw [if_pos hkind, levels_cons_of_derivedType hkind]
      apply ih
    · rw [if_neg hkind, levels_cons_of_ne hkind, foundAlong_cons_iff]
      cases hlocal : t.local? s text with
      | some y => simp
      | none =>
        cases himport : t.canImport s text with
        | false => simp
        | true => simpa using ih

/-! ## What look-ups depend on -/

section

variable {t' : Tree}

/-- The hosts of a scope do not depend on which scopes are inside which. -/
theorem hosts_congr (hscope : ∀ s, (t'.scope s).childless = (t.scope s).childless) (s : ScopeId) :
  t'.hosts s = t.hosts s
  := by
  induction hi : s.index using Nat.strongRecOn generalizing s with
  | ind i ih =>
    have hparent : (t'.scope s).parent = (t.scope s).parent :=
      Scope.field_congr Scope.parent (fun _ => rfl) (hscope s)
    rw [hosts, hparent]
    conv_rhs => rw [hosts]
    cases (t.scope s).parent with
    | none => rfl
    | some p =>
      simp only
      split
      · next hlt => rw [ih p.index (hi ▸ hlt) p rfl]
      · rfl

/-- The import policy in force depends neither on which scopes are inside another one nor on the
symbols, as long as the same ones are interface bodies. -/
theorem importPolicy_congr (hscope : ∀ s, (t'.scope s).childless = (t.scope s).childless)
    (hbody : ∀ x, (t'.symbol x).details.isInterfaceBody = (t.symbol x).details.isInterfaceBody)
    (s : ScopeId) :
  t'.importPolicy s = t.importPolicy s
  := by
  have hsymbol : (t'.scope s).symbol = (t.scope s).symbol :=
    Scope.field_congr Scope.symbol (fun _ => rfl) (hscope s)
  have hpolicy : (t'.scope s).importPolicy = (t.scope s).importPolicy :=
    Scope.field_congr Scope.importPolicy (fun _ => rfl) (hscope s)
  have hbody' : t'.isInterfaceBody s = t.isInterfaceBody s := by
    rw [isInterfaceBody, isInterfaceBody, hsymbol, funext hbody]
  rw [importPolicy, importPolicy, hpolicy, hbody']

/-- What a scope lets in is read off the same data as its policy in force. -/
theorem canImport_congr (hscope : ∀ s, (t'.scope s).childless = (t.scope s).childless)
    (hbody : ∀ x, (t'.symbol x).details.isInterfaceBody = (t.symbol x).details.isInterfaceBody)
    (s : ScopeId) (text : String) :
  t'.canImport s text = t.canImport s text
  := by
  have hkind : (t'.scope s).kind = (t.scope s).kind :=
    Scope.field_congr Scope.kind (fun _ => rfl) (hscope s)
  have hnames : (t'.scope s).importNames = (t.scope s).importNames :=
    Scope.field_congr Scope.importNames (fun _ => rfl) (hscope s)
  rw [canImport, canImport, hkind, hnames, importPolicy_congr hscope hbody]

/-- What a scope itself declares does not depend on which scopes are inside it. -/
theorem local?_congr (hscope : ∀ s, (t'.scope s).childless = (t.scope s).childless) (s : ScopeId)
    (text : String) :
  t'.local? s text = t.local? s text
  := by
  have htable : (t'.scope s).table = (t.scope s).table :=
    Scope.field_congr Scope.table (fun _ => rfl) (hscope s)
  rw [local?, local?, htable]

/-- What is associated with a name along a chain depends on tables, policies and imported names
alone. -/
theorem associated?_congr (hscope : ∀ s, (t'.scope s).childless = (t.scope s).childless)
    (hbody : ∀ x, (t'.symbol x).details.isInterfaceBody = (t.symbol x).details.isInterfaceBody)
    (text : String) (chain : List ScopeId) :
  t'.associated? text chain = t.associated? text chain
  := by
  induction chain with
  | nil => rfl
  | cons s outer ih =>
    have hkind : (t'.scope s).kind = (t.scope s).kind :=
      Scope.field_congr Scope.kind (fun _ => rfl) (hscope s)
    simp only [associated?, hkind, local?_congr hscope, canImport_congr hscope hbody, ih]

/-- What a name denotes depends only on the scopes, but for their children, and on which symbols
are interface bodies. -/
theorem denoted?_congr (hscope : ∀ s, (t'.scope s).childless = (t.scope s).childless)
    (hbody : ∀ x, (t'.symbol x).details.isInterfaceBody = (t.symbol x).details.isInterfaceBody)
    (s : ScopeId) (text : String) :
  t'.denoted? s text = t.denoted? s text
  := by
  have hkind : (t'.scope s).kind = (t.scope s).kind :=
    Scope.field_congr Scope.kind (fun _ => rfl) (hscope s)
  simp only [denoted?, visible?, hkind, local?_congr hscope, hosts_congr hscope,
    associated?_congr hscope hbody]

/-- What a name denotes is read off the outline. -/
theorem denoted?_eq_of_outline_eq (h : t'.outline = t.outline) (s : ScopeId) (text : String) :
  t'.denoted? s text = t.denoted? s text
  := by
  apply denoted?_congr
  · intro s
    rw [scope_eq_of_outline_eq h]
  intro x
  apply Details.isInterfaceBody_eq_of_outline_eq (outline_details_eq_of_outline_eq h x)

end

/-- A scope gives only the names of symbols that it owns, and each of them under its own name. -/
theorem Coherent.entry_of_local? (h : t.Coherent) {s : ScopeId} {text : String} {x : SymbolId}
    (hx : t.local? s text = some x) :
  t.HasSymbol x ∧ (t.symbol x).name = text ∧ (t.symbol x).owner = s
  := by
  obtain ⟨before, after, hentries, -⟩ := List.lookup_eq_some_iff.mp hx
  apply h.entries s (text, x)
  rw [hentries]
  apply List.mem_append_right _ List.mem_cons_self

/-- What a scope gives a name to exists. -/
theorem Coherent.hasSymbol_of_local? (h : t.Coherent) {s : ScopeId} {text : String}
    {x : SymbolId} (hx : t.local? s text = some x) :
  t.HasSymbol x
  := (h.entry_of_local? hx).1

/-! ## Looking up -/

/-- Noting a use of `x` is all that happens to the tree. -/
theorem gains_useIfFound {x : SymbolId} (hx : t.HasSymbol x) (name : Name) :
  t.Gains (t.useIfFound name (some x)).2 (occurrenceOf x .used name.span)
  := gains_addOccurrence hx .used name.span

/-- Noting a use does not change what was found. -/
theorem fst_useIfFound (t : Tree) (name : Name) (x : Option SymbolId) :
  (t.useIfFound name x).1 = x
  := by
  cases x <;> rfl

/-- A name is found where the nearest level declares it, if the levels before let it in.  What is
found gains a single use, and nothing else changes.  There is only one chain by `Outward.eq`. -/
theorem findSymbol_of_reachable (ht : t.Reachable) {s : ScopeId} (hs : t.HasScope s)
    (name : Name) :
  ∃ chain, t.Outward s chain
    ∧ (∀ x, (t.findSymbol s name).1 = some x ↔ t.FoundAlong name.text (t.levels chain) x)
    ∧ (∀ x, (t.findSymbol s name).1 = some x → t.HasSymbol x
      ∧ t.Gains (t.findSymbol s name).2 (occurrenceOf x .used name.span))
    ∧ ((t.findSymbol s name).1 = none → (t.findSymbol s name).2 = t)
  := by
  have hcoherent := ht.coherent
  have hfound (x : SymbolId) : (t.findSymbol s name).1 = some x
      ↔ t.FoundAlong name.text (t.levels (t.hosts s)) x := by
    rw [findSymbol, fst_useIfFound]
    apply associated?_eq_some_iff
  use t.hosts s, hcoherent.outward_hosts hs, hfound
  constructor
  · intro x hx
    obtain ⟨inner, q, outer, -, hq, -⟩ := (hfound x).mp hx
    have hexists := hcoherent.hasSymbol_of_local? hq
    rw [findSymbol, fst_useIfFound] at hx
    rw [findSymbol, hx]
    exact ⟨hexists, gains_useIfFound hexists name⟩
  · intro hnone
    rw [findSymbol, fst_useIfFound] at hnone
    rw [findSymbol, hnone]
    rfl

/-- A block in the definition of a derived type in a module lets in a name of the module. -/
def importingRun : List Session.Operation :=
  let n : Name := ⟨"n", ⟨"a.f90", 0, 1⟩⟩
  [.onTree (.declare .global ⟨"m", ⟨"a.f90", 0, 1⟩⟩ (.moduleUnit false)),
    .onTree (.makeScope .global .moduleUnit (some ⟨0⟩)),
    .onTree (.declare ⟨1⟩ n (.object ⟨none, none, []⟩)),
    .onTree (.makeScope ⟨1⟩ .derivedType none),
    .onTree (.makeScope ⟨2⟩ .block none),
    .onTree (.setImport ⟨3⟩ .only),
    .onTree (.addImportName ⟨3⟩ n)]

/-- The name is found past the definition of the derived type. -/
theorem findSymbol_of_reachable_importingRun :
  let t := ((Session.initial .standard).run importingRun).context.tree
  let name : Name := ⟨"n", ⟨"a.f90", 8, 9⟩⟩
  t.Reachable ∧ t.HasScope ⟨3⟩ ∧ (t.findSymbol ⟨3⟩ name).1 = some ⟨1⟩
    ∧ ∃ chain, t.Outward ⟨3⟩ chain
      ∧ (∀ x, (t.findSymbol ⟨3⟩ name).1 = some x ↔ t.FoundAlong name.text (t.levels chain) x)
      ∧ (∀ x, (t.findSymbol ⟨3⟩ name).1 = some x → t.HasSymbol x
        ∧ t.Gains (t.findSymbol ⟨3⟩ name).2 (occurrenceOf x .used name.span))
      ∧ ((t.findSymbol ⟨3⟩ name).1 = none → (t.findSymbol ⟨3⟩ name).2 = t)
  := by
  intro t name
  have hvalid : (Session.initial .standard).ValidRun importingRun := by decide +kernel
  have ht : t.Reachable := ⟨_, (Session.Reachable.initial .standard).run hvalid, rfl⟩
  have hscope : t.HasScope ⟨3⟩ := by decide +kernel
  refine ⟨ht, hscope, ?_, findSymbol_of_reachable ht hscope name⟩
  decide +kernel

end Tree

end FortranScope
