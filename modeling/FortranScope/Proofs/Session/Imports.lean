import FortranScope.Proofs.Session.Integrity

/-!
# Sequences of `IMPORT` statements

The statements of a scope may stand anywhere among other operations.  The first one settles the
policy of the scope, and each later one is only compared with it: `Verdict` says, apart from the
comparison that the model makes, which constraint a later statement violates.  A statement that is
compared changes nothing, so a sequence is without fault only if it has a single statement, or its
statements all say nothing more than `IMPORT`, or they all have `ONLY`.
-/

namespace FortranScope

/-! ## Verdicts -/

/-- What is reported of the statement `next` after the first one.  The three faults are looked for
in this order. -/
structure Verdict (first next : ImportPolicy) (report : Option Cause) : Prop where
  accepted_iff : report = none ↔ first = .default ∧ next = .default ∨ first = .only ∧ next = .only
  noneNotSole_iff : report = some .importNoneNotSole ↔ next = .none ∨ first = .none
  allNotSole_iff : report = some .importAllNotSole
    ↔ ¬(next = .none ∨ first = .none) ∧ (next = .all ∨ first = .all)
  onlyMismatch_iff : report = some .importOnlyMismatch
    ↔ ¬(next = .none ∨ first = .none) ∧ ¬(next = .all ∨ first = .all)
      ∧ (next = .only ↔ first ≠ .only)

/-- The message about two import statements is the verdict on their policies. -/
theorem verdict_conflict? (first next : ImportPolicy) :
  Verdict first next (first.conflict? next)
  := by
  constructor <;> cases first <;> cases next <;> simp [ImportPolicy.conflict?]

/-- Later statements are accepted only beside a first one of the same kind. -/
theorem conflict?_eq_none_iff (first : ImportPolicy) (later : List ImportPolicy) :
  (∀ next ∈ later, first.conflict? next = none)
    ↔ later = [] ∨ (∀ policy ∈ first :: later, policy = .default)
      ∨ ∀ policy ∈ first :: later, policy = .only
  := by
  simp only [(verdict_conflict? first _).accepted_iff, List.forall_mem_cons]
  constructor
  · intro h
    cases later with
    | nil => exact .inl rfl
    | cons next later =>
      right
      -- the first of the later statements tells which of the two kinds it is
      rcases h next List.mem_cons_self with ⟨rfl, -⟩ | ⟨rfl, -⟩
      · exact .inl ⟨rfl, fun policy hpolicy => by simpa using h policy hpolicy⟩
      · exact .inr ⟨rfl, fun policy hpolicy => by simpa using h policy hpolicy⟩
  · rintro (rfl | ⟨hfirst, hlater⟩ | ⟨hfirst, hlater⟩) next hnext
    · contradiction
    · exact .inl ⟨hfirst, hlater next hnext⟩
    · exact .inr ⟨hfirst, hlater next hnext⟩

namespace Tree

variable {t : Tree} {s : ScopeId}

/-! ## Statements and other operations on trees -/

/-- A later statement is compared with the first one, and changes nothing. -/
theorem setImport_of_eq_some {first : ImportPolicy} (h : (t.scope s).importPolicy = some first)
    (next : ImportPolicy) :
  t.setImport s next = (first.conflict? next, t)
  := by
  rw [setImport, h]

/-- The first statement sets the policy. -/
theorem setImport_of_eq_none (h : (t.scope s).importPolicy = none) (policy : ImportPolicy) :
  t.setImport s policy
    = (none, t.modifyScope s fun q => { q with importPolicy := some policy })
  := by
  rw [setImport, h]

/-- Nothing but a statement of `s` itself sets its policy. -/
theorem policy_apply {o : Operation} (ho : ∀ policy, o ≠ .setImport s policy) :
  ((o.apply t).scope s).importPolicy = (t.scope s).importPolicy
  := by
  apply field_scope_apply Scope.importPolicy (fun _ _ _ _ => rfl)
  intro f hf q
  cases hf with
  | setImport policy => exact absurd rfl (ho policy)
  | _ => rfl

/-! ## Policies that are settled -/

/-- A policy that is settled is in force, in an interface body as elsewhere. -/
theorem importPolicy_eq {policy : ImportPolicy} (h : (t.scope s).importPolicy = some policy) :
  t.importPolicy s = policy
  := by
  rw [importPolicy, h]

/-- A name is let in by every scope but the global one whose policy in force is not `none`, as far
as a list of names does not leave it out. -/
theorem canImport_iff (text : String) :
  t.canImport s text = true ↔ (t.scope s).kind ≠ .global
    ∧ (t.importPolicy s = .all ∨ t.importPolicy s = .default
      ∨ t.importPolicy s = .only ∧ text ∈ (t.scope s).importNames)
  := by
  rw [canImport]
  split
  · next hglobal => simp [hglobal]
  · next hglobal =>
    cases t.importPolicy s <;> simp [hglobal]

end Tree

namespace Session

variable {r : Session} {s : ScopeId} {operations : List Operation}

/-! ## Statements among the operations of a run -/

/-- The policy that the operation gives if it is an `IMPORT` statement of `s`. -/
def Operation.statement? (s : ScopeId) : Operation → Option ImportPolicy
  | .onTree (.setImport q policy) => if q = s then some policy else none
  | _ => none

/-- The policies of the `IMPORT` statements of `s`, in the order of a run. -/
def statements (s : ScopeId) (operations : List Operation) : List ImportPolicy :=
  operations.filterMap (Operation.statement? s)

/-- What is reported of each `IMPORT` statement of `s` in the course of a run. -/
def importReports (s : ScopeId) : Session → List Operation → List (Option Cause)
  | _, [] => []
  | r, o :: rest =>
    match o.statement? s with
    | none => importReports s (o.apply r) rest
    | some policy =>
      (r.context.tree.setImport s policy).1 :: importReports s (o.apply r) rest

/-- Only an operation that sets a policy is an import statement. -/
theorem Operation.eq_of_statement?_eq_some {o : Operation} {policy : ImportPolicy}
    (h : o.statement? s = some policy) :
  o = .onTree (.setImport s policy)
  := by
  unfold statement? at h
  split at h
  · next q policy' =>
    split at h
    · next hq =>
      cases h
      rw [hq]
    · contradiction
  · contradiction

theorem Operation.statement?_setImport (s : ScopeId) (policy : ImportPolicy) :
  (onTree (.setImport s policy)).statement? s = some policy
  := if_pos rfl

/-- Operations that are no import statement report nothing. -/
theorem importReports_cons_of_eq_none {o : Operation} (h : o.statement? s = none) (r : Session)
    (rest : List Operation) :
  importReports s r (o :: rest) = importReports s (o.apply r) rest
  := by
  rw [importReports, h]

/-- An import statement reports first what it is told. -/
theorem importReports_cons_of_eq_some {o : Operation} {policy : ImportPolicy}
    (h : o.statement? s = some policy) (r : Session) (rest : List Operation) :
  importReports s r (o :: rest)
    = (r.context.tree.setImport s policy).1 :: importReports s (o.apply r) rest
  := by
  rw [importReports, h]

/-- The reports of a run are those of its beginning, followed by those of the rest. -/
theorem importReports_append (r : Session) (before after : List Operation) :
  importReports s r (before ++ after)
    = importReports s r before ++ importReports s (r.run before) after
  := by
  induction before generalizing r with
  | nil => rfl
  | cons o before ih =>
    rw [List.cons_append]
    cases ho : o.statement? s with
    | none =>
      rw [importReports_cons_of_eq_none ho, importReports_cons_of_eq_none ho, ih]
      rfl
    | some policy =>
      rw [importReports_cons_of_eq_some ho, importReports_cons_of_eq_some ho, ih]
      rfl

/-! ## Steps -/

/-- Only an import statement changes the policy that was set. -/
theorem policy_apply_of_eq_none {o : Operation} (h : o.statement? s = none) :
  ((o.apply r).context.tree.scope s).importPolicy = (r.context.tree.scope s).importPolicy
  := by
  cases o with
  | onTree o =>
    apply Tree.policy_apply
    rintro policy rfl
    rw [Operation.statement?_setImport] at h
    contradiction
  | say d => rfl
  | analyze q phrase =>
    obtain ⟨gained, hgained⟩ := (r.extends_analyze q phrase).tree
    rw [Operation.apply, hgained.scope]
  | fold e => rfl
  | resolve =>
    have hscope := Tree.scope_eq_of_outline_eq r.settles_pass.outline s
    rw [Operation.apply, resolve_eq]
    apply congrArg Scope.importPolicy hscope

/-- The first import statement sets its policy. -/
theorem policy_setImport (hs : r.context.tree.HasScope s)
    (h : (r.context.tree.scope s).importPolicy = none) (policy : ImportPolicy) :
  (((Operation.onTree (.setImport s policy)).apply r).context.tree.scope s).importPolicy
    = some policy
  := by
  change ((r.context.tree.setImport s policy).2.scope s).importPolicy = _
  rw [Tree.setImport_of_eq_none h, Tree.scope_modifyScope_self _ hs]

/-- A statement after the first one changes nothing at all. -/
theorem apply_setImport {first : ImportPolicy}
    (h : (r.context.tree.scope s).importPolicy = some first) (next : ImportPolicy) :
  (Operation.onTree (.setImport s next)).apply r = r
  := by
  rw [Operation.apply, modifyTree, Tree.Operation.apply, Tree.setImport_of_eq_some h]

/-! ## Runs -/

/-- The policy is that of the first statement, whatever comes after it. -/
theorem policy_run_of_eq_some {first : ImportPolicy}
    (h : (r.context.tree.scope s).importPolicy = some first) (operations : List Operation) :
  ((r.run operations).context.tree.scope s).importPolicy = some first
  := by
  induction operations generalizing r with
  | nil => exact h
  | cons o rest ih =>
    apply ih
    cases ho : o.statement? s with
    | none => rw [policy_apply_of_eq_none ho, h]
    | some policy =>
      rw [Operation.eq_of_statement?_eq_some ho, apply_setImport h, h]

/-- The policy that was set at the end of a run is that of its first import statement. -/
theorem policy_run (hs : r.context.tree.HasScope s)
    (h : (r.context.tree.scope s).importPolicy = none) (operations : List Operation) :
  ((r.run operations).context.tree.scope s).importPolicy = (statements s operations).head?
  := by
  induction operations generalizing r with
  | nil => exact h
  | cons o rest ih =>
    change (((o.apply r).run rest).context.tree.scope s).importPolicy = _
    cases ho : o.statement? s with
    | none =>
      have hs' := (r.persists_apply o).hasScope hs
      rw [ih hs' (by rw [policy_apply_of_eq_none ho, h]), statements, statements,
        List.filterMap_cons_none ho]
    | some policy =>
      rw [statements, List.filterMap_cons_some ho, List.head?_cons]
      obtain rfl := Operation.eq_of_statement?_eq_some ho
      apply policy_run_of_eq_some (policy_setImport hs h policy)

/-- Every statement is compared with the first one, and with no other. -/
theorem importReports_of_eq_some {first : ImportPolicy}
    (h : (r.context.tree.scope s).importPolicy = some first) (operations : List Operation) :
  importReports s r operations = (statements s operations).map first.conflict?
  := by
  induction operations generalizing r with
  | nil => rfl
  | cons o rest ih =>
    cases ho : o.statement? s with
    | none =>
      rw [importReports_cons_of_eq_none ho, ih (by rw [policy_apply_of_eq_none ho, h]), statements,
        statements, List.filterMap_cons_none ho]
    | some policy =>
      rw [importReports_cons_of_eq_some ho, statements, List.filterMap_cons_some ho, List.map_cons,
        Tree.setImport_of_eq_some h]
      obtain rfl := Operation.eq_of_statement?_eq_some ho
      rw [apply_setImport h, ih h, statements]

/-- The first import statement of a run has nothing to report, and the later ones are compared with
it. -/
theorem importReports_of_eq_none (hs : r.context.tree.HasScope s)
    (h : (r.context.tree.scope s).importPolicy = none) (operations : List Operation) :
  importReports s r operations = match statements s operations with
    | [] => []
    | first :: later => none :: later.map first.conflict?
  := by
  induction operations generalizing r with
  | nil => rfl
  | cons o rest ih =>
    cases ho : o.statement? s with
    | none =>
      have hs' := (r.persists_apply o).hasScope hs
      rw [importReports_cons_of_eq_none ho, ih hs' (by rw [policy_apply_of_eq_none ho, h]),
        statements, statements, List.filterMap_cons_none ho]
    | some policy =>
      rw [importReports_cons_of_eq_some ho, Tree.setImport_of_eq_none h, statements,
        List.filterMap_cons_some ho]
      obtain rfl := Operation.eq_of_statement?_eq_some ho
      rw [importReports_of_eq_some (policy_setImport hs h policy)]
      rfl

/-- No import statement of a run is at fault exactly if there is at most one, or each of them is
plain, or each has `ONLY`. -/
theorem importReports_eq_none_iff (hs : r.context.tree.HasScope s)
    (h : (r.context.tree.scope s).importPolicy = none) (operations : List Operation) :
  (∀ report ∈ importReports s r operations, report = none)
    ↔ (statements s operations).length ≤ 1
      ∨ (∀ policy ∈ statements s operations, policy = .default)
      ∨ ∀ policy ∈ statements s operations, policy = .only
  := by
  rw [importReports_of_eq_none hs h]
  cases statements s operations with
  | nil => simp
  | cons first later =>
    have hlength : (first :: later).length ≤ 1 ↔ later = [] := by simp
    rw [hlength, ← conflict?_eq_none_iff]
    simp

/-- The policy `first` is in force in `s`, where it says what is visible through `s`, and a further
statement changes nothing at all. -/
structure Governs (first : ImportPolicy) (s : ScopeId) (q : Session) : Prop where
  policy : q.context.tree.importPolicy s = first
  visible : ∀ text, q.context.tree.canImport s text = true
    ↔ (q.context.tree.scope s).kind ≠ .global
      ∧ (first = .all ∨ first = .default
        ∨ first = .only ∧ text ∈ (q.context.tree.scope s).importNames)
  unchanged : ∀ next, (Operation.onTree (.setImport s next)).apply q = q

/-- A policy that was set governs its scope. -/
theorem governs_of_eq_some {first : ImportPolicy}
    (h : (r.context.tree.scope s).importPolicy = some first) :
  Governs first s r
  where
  policy := Tree.importPolicy_eq h
  visible text := by rw [Tree.canImport_iff, Tree.importPolicy_eq h]
  unchanged next := apply_setImport h next

/-- The statements of a scope that has no policy yet are without fault just if there is at most
one, or each of them is plain, or each has `ONLY`.  What is reported of a statement after the first
one is the verdict on these two.  From the first statement on, its policy governs the scope, so that
a later statement may as well not have been made: the reports on the others are the same. -/
theorem import_statements (hs : r.context.tree.HasScope s)
    (hfree : (r.context.tree.scope s).importPolicy = none) (operations : List Operation) :
  ((∀ report ∈ importReports s r operations, report = none)
    ↔ (statements s operations).length ≤ 1
      ∨ (∀ policy ∈ statements s operations, policy = .default)
      ∨ ∀ policy ∈ statements s operations, policy = .only)
    ∧ (importReports s r operations).length = (statements s operations).length
    ∧ (∀ first later, statements s operations = first :: later →
      ∃ verdicts, importReports s r operations = none :: verdicts
        ∧ List.Forall₂ (Verdict first) later verdicts)
    ∧ ∀ before after, operations = before ++ after →
      ∀ first earlier, statements s before = first :: earlier →
        Governs first s (r.run before)
          ∧ ∀ next, ∃ report, Verdict first next report
            ∧ importReports s r (before ++ .onTree (.setImport s next) :: after)
              = importReports s r before ++ report :: importReports s (r.run before) after
            ∧ importReports s r operations
              = importReports s r before ++ importReports s (r.run before) after
  := by
  refine ⟨importReports_eq_none_iff hs hfree operations, ?_, ?_, ?_⟩
  · rw [importReports_of_eq_none hs hfree]
    cases statements s operations with
    | nil => rfl
    | cons first later => simp
  · intro first later heq
    use later.map first.conflict?
    constructor
    · rw [importReports_of_eq_none hs hfree, heq]
    · rw [List.forall₂_map_right_iff, List.forall₂_same]
      exact fun next _ => verdict_conflict? first next
  · rintro before after rfl first earlier heq
    have hpolicy : ((r.run before).context.tree.scope s).importPolicy = some first := by
      rw [policy_run hs hfree, heq, List.head?_cons]
    use governs_of_eq_some hpolicy
    intro next
    use first.conflict? next, verdict_conflict? first next
    constructor
    · rw [importReports_append,
        importReports_cons_of_eq_some (Operation.statement?_setImport s next),
        Tree.setImport_of_eq_some hpolicy, apply_setImport hpolicy]
    · apply importReports_append

/-- An interface body without a policy. -/
def interfaceRun : List Operation :=
  [.onTree (.declare .global ⟨"f", ⟨"a.f90", 0, 1⟩⟩ (.subprogram ⟨true, [], none⟩)),
    .onTree (.makeScope .global .subprogram (some ⟨0⟩))]

/-- Statements of an interface body, with other operations between them. -/
def statementsRun : List Operation :=
  let n : Name := ⟨"n", ⟨"a.f90", 4, 5⟩⟩
  [.onTree (.setImport ⟨1⟩ .only),
    .onTree (.declare .global n .unknown),
    .onTree (.setImport ⟨1⟩ .all),
    .onTree (.addImportName ⟨1⟩ n),
    .onTree (.setImport .global .none),
    .onTree (.setImport ⟨1⟩ .default),
    .resolve,
    .onTree (.setImport ⟨1⟩ .only)]

/-- The verdict on the last statement is that on it and the first one alone. -/
theorem import_statements_interfaceBody :
  let r := (Session.initial .standard).run interfaceRun
  r.context.tree.HasScope ⟨1⟩ ∧ (r.context.tree.scope ⟨1⟩).importPolicy = none
    ∧ r.context.tree.isInterfaceBody ⟨1⟩ = true
    ∧ statements ⟨1⟩ statementsRun = [.only, .all, .default, .only]
    ∧ importReports ⟨1⟩ r statementsRun
      = [none, some .importAllNotSole, some .importOnlyMismatch, none]
    ∧ ∃ verdicts, importReports ⟨1⟩ r statementsRun = none :: verdicts
      ∧ List.Forall₂ (Verdict .only) [.all, .default, .only] verdicts
  := by
  intro r
  have hs : r.context.tree.HasScope ⟨1⟩ := by decide +kernel
  have hfree : (r.context.tree.scope ⟨1⟩).importPolicy = none := by decide +kernel
  have hstatements := import_statements hs hfree statementsRun
  refine ⟨hs, hfree, by decide +kernel, by decide +kernel, by decide +kernel, ?_⟩
  exact hstatements.2.2.1 .only [.all, .default, .only] (by decide +kernel)

end Session

end FortranScope
