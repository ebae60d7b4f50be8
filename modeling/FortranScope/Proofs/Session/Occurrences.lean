import FortranScope.Proofs.Expr.Reference
import FortranScope.Proofs.Resolution.Parallel
import FortranScope.Proofs.Session.Integrity
import FortranScope.Proofs.Tree.Naming

/-!
# The log of a symbol

The occurrences of a symbol are a log of its uses that is closed when its name is removed.  As long
as the table of its owner has the symbol, everything that finds it by name adds uses; the removal
adds an entry of its own; and afterwards nothing finds the symbol any more, so nothing is added,
whatever else is declared under the name.
-/

namespace FortranScope

namespace Tree

variable {t t' t'' u : Tree} {x y : SymbolId}

/-! ## Logs -/

/-- The table of its owner gives the symbol its name. -/
def Named (t : Tree) (x : SymbolId) : Prop :=
  t.local? (t.symbol x).owner (t.symbol x).name = some x

/-- The entries are uses, and behind them there is a removal unless the log is open. -/
def IsLog (isOpen : Prop) (entries : List Occurrence) : Prop :=
  ∃ uses, (∀ o ∈ uses, o.kind = .used)
    ∧ (isOpen ∧ entries = uses ∨ ¬ isOpen ∧ ∃ span, entries = uses ++ [⟨.removed, span⟩])

/-- The log of a symbol is open before the symbol exists, and then as long as it has its name. -/
def Open (t : Tree) (x : SymbolId) : Prop := t.HasSymbol x → t.Named x

/-- The log of `x` has become longer: if it was open it is continued, and closed by a removal if it
is not open any more; if it was closed it stays as it is. -/
def ContinuesAt (t t' : Tree) (x : SymbolId) : Prop :=
  ∃ added, (t'.symbol x).occurrences = (t.symbol x).occurrences ++ added
    ∧ (t.Open x → IsLog (t'.Open x) added) ∧ (¬ t.Open x → ¬ t'.Open x ∧ added = [])

/-- All logs have become longer. -/
def Continues (t t' : Tree) : Prop := ∀ x, t.ContinuesAt t' x

/-- A symbol without an occurrence has a log, as long as it is open. -/
theorem isLog_nil {isOpen : Prop} (h : isOpen) :
  IsLog isOpen []
  := by
  refine ⟨[], ?_, .inl ⟨h, rfl⟩⟩
  intro o ho
  contradiction

/-- An open log goes on with another one, and a closed log with nothing. -/
theorem IsLog.append {wasOpen isOpen : Prop} {entries added : List Occurrence}
    (h : IsLog wasOpen entries) (hopen : wasOpen → IsLog isOpen added)
    (hclosed : ¬ wasOpen → ¬ isOpen ∧ added = []) :
  IsLog isOpen (entries ++ added)
  := by
  obtain ⟨uses, huses, ⟨hwas, rfl⟩ | ⟨hwas, span, rfl⟩⟩ := h
  · obtain ⟨more, hmore, hadded⟩ := hopen hwas
    refine ⟨entries ++ more, List.forall_mem_append.mpr ⟨huses, hmore⟩, ?_⟩
    rcases hadded with ⟨his, rfl⟩ | ⟨his, span, rfl⟩
    · exact .inl ⟨his, rfl⟩
    · exact .inr ⟨his, span, (List.append_assoc _ _ _).symm⟩
  · obtain ⟨his, rfl⟩ := hclosed hwas
    exact ⟨uses, huses, .inr ⟨his, span, List.append_nil _⟩⟩

/-- A symbol with the same occurrences continues its log if it is open as before. -/
theorem continuesAt_of_eq (hoccurrences : (t'.symbol x).occurrences = (t.symbol x).occurrences)
    (hopen : t'.Open x ↔ t.Open x) :
  t.ContinuesAt t' x
  := by
  refine ⟨[], ?_, ?_, ?_⟩
  · rw [List.append_nil, hoccurrences]
  · intro hx
    apply isLog_nil (hopen.mpr hx)
  · intro hx
    exact ⟨fun hx' => hx (hopen.mp hx'), rfl⟩

theorem Continues.trans (h : t.Continues t') (h' : t'.Continues t'') :
  t.Continues t''
  := by
  intro x
  obtain ⟨added, heq, hopen, hclosed⟩ := h x
  obtain ⟨added', heq', hopen', hclosed'⟩ := h' x
  refine ⟨added ++ added', ?_, ?_, ?_⟩
  · rw [heq', heq, List.append_assoc]
  · intro hx
    apply (hopen hx).append hopen' hclosed'
  · intro hx
    obtain ⟨hx', rfl⟩ := hclosed hx
    apply hclosed' hx'

/-! ## Uses -/

/-- Names mean what they did, and symbols that have their names were used. -/
structure Uses (t t' : Tree) : Prop where
  size : t'.symbols.size = t.symbols.size
  local? : ∀ s text, t'.local? s text = t.local? s text
  name : ∀ x, (t'.symbol x).name = (t.symbol x).name
  owner : ∀ x, (t'.symbol x).owner = (t.symbol x).owner
  occurrences : ∀ x, ∃ uses, (t'.symbol x).occurrences = (t.symbol x).occurrences ++ uses
    ∧ ∀ o ∈ uses, o.kind = .used ∧ t.Named x

/-- Uses do not change which symbols are named. -/
theorem Uses.named_iff (h : t.Uses t') :
  t'.Named x ↔ t.Named x
  := by
  rw [Named, Named, h.local?, h.name, h.owner]

/-- Uses do not change which symbols are open. -/
theorem Uses.open_iff (h : t.Uses t') :
  t'.Open x ↔ t.Open x
  := by
  rw [Open, Open, h.named_iff, HasSymbol, HasSymbol, h.size]

theorem Uses.trans (h : t.Uses t') (h' : t'.Uses t'') :
  t.Uses t''
  := by
  constructor
  · rw [h'.size, h.size]
  · intro s text
    rw [h'.local?, h.local?]
  · intro x
    rw [h'.name, h.name]
  · intro x
    rw [h'.owner, h.owner]
  · intro x
    obtain ⟨uses, heq, huses⟩ := h.occurrences x
    obtain ⟨uses', heq', huses'⟩ := h'.occurrences x
    refine ⟨uses ++ uses', ?_, ?_⟩
    · rw [heq', heq, List.append_assoc]
    · intro o ho
      rcases List.mem_append.mp ho with ho | ho
      · apply huses o ho
      · obtain ⟨hkind, hnamed⟩ := huses' o ho
        exact ⟨hkind, h.named_iff.mp hnamed⟩

/-- Uses continue open logs only. -/
theorem Uses.continues (h : t.Uses t') :
  t.Continues t'
  := by
  intro x
  obtain ⟨uses, heq, huses⟩ := h.occurrences x
  refine ⟨uses, heq, ?_, ?_⟩
  · intro hx
    exact ⟨uses, fun o ho => (huses o ho).1, .inl ⟨h.open_iff.mpr hx, rfl⟩⟩
  · intro hx
    use fun hx' => hx (h.open_iff.mp hx')
    rw [List.eq_nil_iff_forall_not_mem]
    intro o ho
    exact hx fun _ => (huses o ho).2

/-- Symbols and tables are all that uses are about. -/
theorem uses_of_symbols_eq (hsymbols : t'.symbols = t.symbols)
    (htable : ∀ s, (t'.scope s).table = (t.scope s).table) :
  t.Uses t'
  := by
  have hsymbol (x : SymbolId) : t'.symbol x = t.symbol x := by
    rw [symbol, hsymbols]
    rfl
  constructor
  · rw [hsymbols]
  · intro s text
    rw [Tree.local?, Tree.local?, htable]
  · intro x
    rw [hsymbol]
  · intro x
    rw [hsymbol]
  · intro x
    refine ⟨[], ?_, ?_⟩
    · rw [List.append_nil, hsymbol]
    · intro o ho
      contradiction

theorem uses_refl (t : Tree) :
  t.Uses t
  := uses_of_symbols_eq rfl fun _ => rfl

/-- A change of a symbol that keeps its name, its owner and its occurrences is no use. -/
theorem uses_modifySymbol (t : Tree) (x : SymbolId) {f : Symbol → Symbol}
    (hname : ∀ y, (f y).name = y.name) (howner : ∀ y, (f y).owner = y.owner)
    (hoccurrences : ∀ y, (f y).occurrences = y.occurrences) :
  t.Uses (t.modifySymbol x f)
  := by
  constructor
  · apply size_symbols_modifySymbol
  · intro s text
    rfl
  · apply field_modifySymbol Symbol.name hname
  · apply field_modifySymbol Symbol.owner howner
  · intro y
    refine ⟨[], ?_, ?_⟩
    · rw [List.append_nil]
      apply field_modifySymbol Symbol.occurrences hoccurrences
    · intro o ho
      contradiction

/-- A use may be noted at a symbol that is named. -/
theorem uses_addOccurrence (hx : t.Named x) (span : Span) :
  t.Uses (t.addOccurrence x .used span)
  := by
  constructor
  · apply size_symbols_modifySymbol
  · intro s text
    rfl
  · apply field_modifySymbol Symbol.name
    intro y
    rfl
  · apply field_modifySymbol Symbol.owner
    intro y
    rfl
  · intro y
    rw [addOccurrence, symbol_modifySymbol]
    split
    · next hy =>
      refine ⟨[⟨.used, span⟩], rfl, ?_⟩
      rw [List.forall_mem_singleton, hy.1]
      exact ⟨rfl, hx⟩
    · refine ⟨[], (List.append_nil _).symm, ?_⟩
      intro o ho
      contradiction

/-- What a scope declares is named. -/
theorem Coherent.named_of_local? (h : t.Coherent) {s : ScopeId} {text : String}
    (hx : t.local? s text = some x) :
  t.Named x
  := by
  obtain ⟨-, hname, howner⟩ := h.entry_of_local? hx
  rw [Named, hname, howner, hx]

/-! ## Operations -/

/-- The operation neither declares nor removes a name. -/
def Operation.KeepsNames : Operation → Prop
  | declare _ _ _ => False
  | erase _ _ => False
  | _ => True

/-- A write of an operation that keeps the names notes at most one use, of a symbol that was found and
so has its name. -/
theorem Coherent.uses_write (h : t.Coherent) {o : Operation} (ho : o.KeepsNames)
    (hwrite : o.Writes t u) :
  t.Uses u
  := by
  cases hwrite with
  | enter | remove | erase => contradiction
  | nest =>
    refine uses_of_symbols_eq rfl ?_
    apply table_scope_nest
  | find hx => apply uses_addOccurrence (h.named_of_local? hx)
  | findSymbol hx | findAround _ hx =>
    obtain ⟨q, -, hq⟩ := exists_local?_of_visible? hx
    apply uses_addOccurrence (h.named_of_local? hq)
  | introduce | setDetails | addAttr | removeAttr =>
    apply uses_modifySymbol <;> intro y <;> rfl
  | setImport | addImportName | addSubmodule | listSpec | addRange =>
    refine uses_of_symbols_eq rfl ?_
    apply field_modifyScope Scope.table
    intro q
    rfl
  | makeSpec | bindSpec | addParam => exact uses_of_symbols_eq rfl fun _ => rfl

/-- An operation that keeps names adds uses only. -/
theorem Coherent.uses_apply (h : t.Coherent) {o : Operation} (hvalid : o.Valid t)
    (ho : o.KeepsNames) :
  t.Uses (o.apply t)
  := by
  have hboth : (o.apply t).Coherent ∧ t.Uses (o.apply t) := by
    apply hvalid.apply_induction (P := fun u => u.Coherent ∧ t.Uses u) ⟨h, t.uses_refl⟩
    rintro u v hu hwrite ⟨hcoherent, huses⟩
    exact ⟨hcoherent.write hu hwrite, huses.trans (hcoherent.uses_write ho hwrite)⟩
  exact hboth.2

/-- A new symbol has no occurrences. -/
theorem occurrences_declare {s : ScopeId} {name : Name} {details : Details}
    (hu : t.declare s name details = .ok (x, u)) :
  (u.symbol x).occurrences = []
  := by
  obtain ⟨-, rfl, rfl⟩ := declare_eq_ok hu
  rw [symbol_enter, if_pos rfl]

/-- A declaration opens an empty log and changes no other one. -/
theorem Coherent.continues_declare (h : t.Coherent) {s : ScopeId} (hs : t.HasScope s) {name : Name}
    {details : Details} (hu : t.declare s name details = .ok (x, u)) :
  t.Continues u
  := by
  have hsize := size_symbols_declare hu
  obtain ⟨hfree, rfl, -⟩ := declare_eq_ok hu
  have hnew : ¬ t.HasSymbol ⟨t.symbols.size⟩ := Nat.lt_irrefl _
  intro y
  by_cases hy : y = ⟨t.symbols.size⟩
  · -- the new symbol: its log is empty, and it has a name
    subst hy
    apply continuesAt_of_eq
    · rw [occurrences_declare hu, symbol_eq_default hnew]
      rfl
    · refine iff_of_true (fun _ => ?_) fun hy => absurd hy hnew
      have hlocal := local?_declare hs hu s name.text
      rw [if_pos ⟨rfl, rfl⟩] at hlocal
      apply (h.declare hu).named_of_local? hlocal
  · -- any other symbol keeps its log, and also its name, since the new name was free
    have hsymbol := symbol_declare_of_ne hu hy
    apply continuesAt_of_eq
    · rw [hsymbol]
    · have hindex : y.index ≠ t.symbols.size := fun hindex => hy (congrArg SymbolId.mk hindex)
      have hexists : u.HasSymbol y ↔ t.HasSymbol y := by
        rw [HasSymbol, HasSymbol, hsize]
        omega
      have hnamed : u.Named y ↔ t.Named y := by
        rw [Named, Named, hsymbol, local?_declare hs hu]
        split
        · next hplace =>
          rw [hplace.1, hplace.2, hfree]
          simp [Ne.symm hy]
        · rfl
      rw [Open, Open, hexists, hnamed]

/-- A removal closes the log of the symbol that loses its name, and changes no other one. -/
theorem Coherent.continues_erase (h : t.Coherent) (s : ScopeId) (name : Name) :
  t.Continues (t.erase s name).2
  := by
  cases hx : t.local? s name.text with
  | none =>
    rw [Tree.erase, hx]
    apply t.uses_refl.continues
  | some x =>
    have hs := hasScope_of_local? hx
    intro y
    by_cases hy : y = x
    · -- the name that goes was the only one of the symbol
      subst hy
      have hnameless := h.nameless_erase hx
      have hclosed : ¬ (t.erase s name).2.Open y := fun hopen => hnameless.2 _ _ (hopen hnameless.1)
      refine ⟨[⟨.removed, name.span⟩], congrArg Prod.snd (h.account_erase hx), ?_, ?_⟩
      · intro _
        refine ⟨[], ?_, .inr ⟨hclosed, name.span, rfl⟩⟩
        intro o ho
        contradiction
      · intro hy
        exact absurd (fun _ => h.named_of_local? hx) hy
    · have hne : t.local? s name.text ≠ some y := by
        rw [hx]
        exact fun heq => hy (Option.some.inj heq).symm
      have hsymbol := symbol_erase_of_ne hne
      apply continuesAt_of_eq
      · rw [hsymbol]
      · have hexists : (t.erase s name).2.HasSymbol y ↔ t.HasSymbol y := by
          rw [Tree.erase, hx]
          exact iff_of_eq (congrArg _ (size_symbols_modifySymbol _ _ _))
        have hnamed : (t.erase s name).2.Named y ↔ t.Named y := by
          rw [Named, Named, hsymbol, local?_erase hs]
          split
          · next hplace =>
            rw [hplace.1, hplace.2]
            simp [hne]
          · rfl
        rw [Open, Open, hexists, hnamed]

/-- A valid operation continues the logs of all symbols. -/
theorem Coherent.continues_apply (h : t.Coherent) {o : Operation} (ho : o.Valid t) :
  t.Continues (o.apply t)
  := by
  cases o with
  | declare s name details =>
    rw [Operation.apply]
    cases hu : t.declare s name details with
    | error => apply t.uses_refl.continues
    | ok outcome => apply h.continues_declare ho.1 hu
  | erase s name => apply h.continues_erase
  | _ =>
    apply (h.uses_apply ho _).continues
    trivial

end Tree

/-! ## Analyses and resolutions -/

/-- What an analysis records are uses of symbols that have their names. -/
theorem Tree.Coherent.uses_record {t : Tree} (h : t.Coherent) {c : Context} (hc : t.Uses c.tree)
    (s : ScopeId) (phrase : Phrase) :
  t.Uses (c.record (c.analysis s phrase)).tree
  := by
  have hnamed : ∀ u ∈ (c.analysis s phrase).uses, t.Named u.symbol := by
    intro u hu
    obtain ⟨q, -, text, hq⟩ :=
      (c.denotedIn_of_mem_used_analysis s phrase (List.mem_map_of_mem hu)).exists_local?
    rw [hc.local?] at hq
    apply h.named_of_local? hq
  have hfoldl (uses : List Use) (huses : ∀ u ∈ uses, t.Named u.symbol) {t' : Tree}
      (ht' : t.Uses t') :
      t.Uses (uses.foldl (fun t u => t.addOccurrence u.symbol .used u.span) t') := by
    induction uses generalizing t' with
    | nil => exact ht'
    | cons u uses ih =>
      obtain ⟨hu, huses⟩ := List.forall_mem_cons.mp huses
      apply ih huses
      apply ht'.trans
      apply uses_addOccurrence (ht'.named_iff.mpr hu)
  apply hfoldl _ hnamed hc

/-- Settling an expression adds uses only. -/
theorem Tree.Coherent.uses_settle {t : Tree} (h : t.Coherent) {r : Session}
    (hr : t.Uses r.context.tree) (s : ScopeId) (d : Deferred) :
  t.Uses (r.settle s d).2.context.tree
  := by
  cases d with
  | empty | failed | resolved => exact hr
  | pending phrase =>
    have hrecord := h.uses_record hr s phrase
    rw [Session.settle]
    split
    · next next heq =>
      obtain rfl := (congrArg Prod.snd heq).symm
      exact hrecord
    · next e next heq =>
      obtain rfl := (congrArg Prod.snd heq).symm
      exact hrecord

/-- A resolution uses symbols that have their names. -/
theorem Tree.Coherent.uses_resolve {r : Session} (h : r.context.tree.Coherent) :
  r.context.tree.Uses r.resolve.2.context.tree
  := by
  rw [Session.resolve_eq, Session.pass]
  apply Pass.foldl_keeps (I := fun p => r.context.tree.Uses p.tree)
  · intro p s d hp
    rw [Pass.settle]
    split
    · apply h.uses_settle hp
    · exact hp
  · intro p x D hp
    apply hp.trans
    apply uses_modifySymbol <;> intro y <;> rfl
  · intro p d params hp
    apply hp.trans
    exact uses_of_symbols_eq rfl fun _ => rfl
  · apply uses_refl

namespace Session

/-- In a reachable session a valid operation continues the logs of all symbols. -/
theorem Reachable.continues_apply {r : Session} (hr : r.Reachable) {o : Operation}
    (ho : o.Valid r) :
  r.context.tree.Continues (o.apply r).context.tree
  := by
  have hrefl := r.context.tree.uses_refl
  cases o with
  | onTree o => apply hr.coherent.continues_apply ho
  | say d => apply hrefl.continues
  | analyze s phrase => apply (hr.coherent.uses_record hrefl s phrase).continues
  | fold e => apply hrefl.continues
  | resolve => apply hr.coherent.uses_resolve.continues

/-- From a reachable session a valid run continues the logs of all symbols. -/
theorem Reachable.continues_run {r : Session} (hr : r.Reachable) {operations : List Operation}
    (h : r.ValidRun operations) :
  r.context.tree.Continues (r.run operations).context.tree
  := by
  induction operations generalizing r with
  | nil => apply r.context.tree.uses_refl.continues
  | cons o rest ih => apply (hr.continues_apply h.1).trans (ih (hr.step o h.1) h.2)

/-- The log of a symbol is open, or closed by a removal, as the symbol has its name or not. -/
theorem Reachable.isLog {r : Session} (hr : r.Reachable) (x : SymbolId) :
  Tree.IsLog (r.context.tree.Open x) (r.context.tree.symbol x).occurrences
  := by
  induction hr with
  | initial config =>
    have hx : ¬ Tree.initial.HasSymbol x := Nat.not_lt_zero _
    have hoccurrences : (Tree.initial.symbol x).occurrences = [] := by
      rw [Tree.symbol_eq_default hx]
      rfl
    change Tree.IsLog _ (Tree.initial.symbol x).occurrences
    rw [hoccurrences]
    apply Tree.isLog_nil
    exact fun h => absurd h hx
  | @step r o hr ho ih =>
    obtain ⟨added, heq, hopen, hclosed⟩ := hr.continues_apply ho x
    rw [heq]
    apply ih.append hopen hclosed

/-- In a session that can be reached the occurrences of a symbol are uses, with a removal behind them
exactly if the table of the owner does not have the symbol any more.  Whatever is done later, the
occurrences stay and others come behind them, none if the name was removed before; and a symbol
whose name was removed has no name ever after. -/
theorem isLog_of_reachable {r : Session} (hr : r.Reachable) {x : SymbolId}
    (hx : r.context.tree.HasSymbol x) :
  Tree.IsLog (r.context.tree.Named x) (r.context.tree.symbol x).occurrences
    ∧ ∀ operations, r.ValidRun operations →
      let t := (r.run operations).context.tree
      (r.context.tree.symbol x).occurrences <+: (t.symbol x).occurrences
        ∧ Tree.IsLog (t.Named x) (t.symbol x).occurrences
        ∧ (¬ r.context.tree.Named x →
          ¬ t.Named x ∧ (t.symbol x).occurrences = (r.context.tree.symbol x).occurrences)
  := by
  have hopen {r : Session} (hx : r.context.tree.HasSymbol x) :
      r.context.tree.Open x ↔ r.context.tree.Named x := ⟨fun h => h hx, fun h _ => h⟩
  have hlog := hr.isLog x
  rw [hopen hx] at hlog
  refine ⟨hlog, ?_⟩
  intro operations hvalid t
  have ht : t.HasSymbol x := (r.persists_run operations).hasSymbol hx
  have hlater := (hr.run hvalid).isLog x
  obtain ⟨added, heq, -, hclosed⟩ := hr.continues_run hvalid x
  rw [hopen ht] at hlater hclosed
  rw [hopen hx] at hclosed
  refine ⟨?_, hlater, ?_⟩
  · rw [heq]
    apply List.prefix_append
  · intro hname
    obtain ⟨hname', rfl⟩ := hclosed hname
    refine ⟨hname', ?_⟩
    rw [heq, List.append_nil]

/-- A name that an initial value in a module refers to is looked up, settled with the initial value,
and removed. -/
def removingRun : List Operation :=
  let span : Span := ⟨"a.f90", 0, 1⟩
  [.onTree (.declare .global ⟨"n", span⟩ (.object ⟨none, none, []⟩)),
    .onTree (.declare .global ⟨"m", span⟩ (.moduleUnit false)),
    .onTree (.makeScope .global .moduleUnit (some ⟨1⟩)),
    .onTree (.declare ⟨1⟩ ⟨"v", span⟩
      (.object ⟨none, some (.pending (.designator ⟨"n", ⟨"a.f90", 4, 5⟩⟩)), []⟩)),
    .onTree (.findSymbol ⟨1⟩ ⟨"n", ⟨"a.f90", 2, 3⟩⟩),
    .resolve,
    .onTree (.erase .global ⟨"n", ⟨"a.f90", 6, 7⟩⟩)]

/-- The name is declared again, imported and analysed. -/
def redeclaringRun : List Operation :=
  let n : Name := ⟨"n", ⟨"a.f90", 8, 9⟩⟩
  [.onTree (.declare .global n (.object ⟨none, none, []⟩)),
    .onTree (.addImportName ⟨1⟩ n),
    .analyze ⟨1⟩ (.binary (.intrinsic .add) (.designator n) (.designator n))]

/-- The uses of the name that is declared again belong to the new symbol. -/
theorem isLog_of_reachable_removingRun :
  let r := (initial .standard).run removingRun
  let x : SymbolId := ⟨0⟩
  (r.context.tree.symbol x).occurrences = [⟨.used, ⟨"a.f90", 2, 3⟩⟩, ⟨.used, ⟨"a.f90", 4, 5⟩⟩,
      ⟨.removed, ⟨"a.f90", 6, 7⟩⟩]
    ∧ ¬ r.context.tree.Named x
    ∧ r.ValidRun redeclaringRun
    ∧ (((r.run redeclaringRun).context.tree.symbol ⟨3⟩).occurrences.map Occurrence.kind
      = [.used, .used, .used])
    ∧ Tree.IsLog (r.context.tree.Named x) (r.context.tree.symbol x).occurrences
    ∧ ∀ operations, r.ValidRun operations →
      let t := (r.run operations).context.tree
      (r.context.tree.symbol x).occurrences <+: (t.symbol x).occurrences
        ∧ Tree.IsLog (t.Named x) (t.symbol x).occurrences
        ∧ (¬ r.context.tree.Named x →
          ¬ t.Named x ∧ (t.symbol x).occurrences = (r.context.tree.symbol x).occurrences)
  := by
  have hvalid : (initial .standard).ValidRun removingRun := by decide +kernel
  have hreachable := (Reachable.initial .standard).run hvalid
  refine ⟨?_, ?_, ?_, ?_, isLog_of_reachable hreachable ?_⟩
  · decide +kernel
  · unfold Tree.Named
    decide +kernel
  · decide +kernel
  · decide +kernel
  · decide +kernel

end Session

end FortranScope
