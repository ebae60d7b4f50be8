import FortranScope.Proofs.Tree.Association
import FortranScope.Proofs.Tree.Persistence

/-!
# Names

Declarations and removals of names make a history for every name of every scope, and what a
scope gives the name to is decided by the last event of this history.  No other look-up or
creation of a scope matters, nor does anything that happens to other names and in other scopes.
A symbol whose name was removed is in no table any more, so nothing reaches it afterwards.
-/

namespace FortranScope.Tree

/-! ## Calls -/

/-- An operation that declares, removes or looks up a name as it is spelled, or creates a
scope. -/
inductive Call where
  | declare (s : ScopeId) (spelling : String) (span : Span) (details : Details)
  | erase (s : ScopeId) (spelling : String) (span : Span)
  | find (s : ScopeId) (spelling : String) (span : Span)
  | findSymbol (s : ScopeId) (spelling : String) (span : Span)
  | makeScope (parent : ScopeId) (kind : ScopeKind) (symbol : Option SymbolId)

namespace Call

/-- The operation that the call makes. -/
def operation : Call → Operation
  | declare s spelling span details => .declare s (.ofSpelling spelling span) details
  | erase s spelling span => .erase s (.ofSpelling spelling span)
  | find s spelling span => .find s (.ofSpelling spelling span)
  | findSymbol s spelling span => .findSymbol s (.ofSpelling spelling span)
  | makeScope parent kind symbol => .makeScope parent kind symbol

/-- The scope that the call is made on exists, and so does the symbol that introduces a new
scope. -/
def Valid (t : Tree) : Call → Prop
  | declare s _ _ _ => t.HasScope s
  | erase s _ _ => t.HasScope s
  | find s _ _ => t.HasScope s
  | findSymbol s _ _ => t.HasScope s
  | makeScope parent _ symbol => t.HasScope parent ∧ ∀ x ∈ symbol.toList, t.HasSymbol x

instance (t : Tree) (c : Call) : Decidable (c.Valid t) :=
  match c with
  | declare s _ _ _ => inferInstanceAs (Decidable (t.HasScope s))
  | erase s _ _ => inferInstanceAs (Decidable (t.HasScope s))
  | find s _ _ => inferInstanceAs (Decidable (t.HasScope s))
  | findSymbol s _ _ => inferInstanceAs (Decidable (t.HasScope s))
  | makeScope _ _ _ => inferInstanceAs (Decidable (_ ∧ _))

/-- The tree after the call. -/
def apply (t : Tree) (c : Call) : Tree := c.operation.apply t

/-- The scope and the text of the name that the call may declare or remove. -/
def target? : Call → Option (ScopeId × String)
  | declare s spelling _ _ => some (s, Text.foldCase spelling)
  | erase s spelling _ => some (s, Text.foldCase spelling)
  | _ => none

end Call

/-- Some calls, each valid where it is made. -/
def ValidCalls : Tree → List Call → Prop
  | _, [] => True
  | t, c :: rest => c.Valid t ∧ ValidCalls (c.apply t) rest

instance decidableValidCalls : (t : Tree) → (calls : List Call) → Decidable (t.ValidCalls calls)
  | _, [] => inferInstanceAs (Decidable True)
  | t, c :: rest =>
    have := decidableValidCalls (c.apply t) rest
    inferInstanceAs (Decidable (_ ∧ _))

/-- The tree after some calls. -/
def call (t : Tree) (calls : List Call) : Tree := calls.foldl Call.apply t

/-! ## Histories -/

/-- A name was declared or removed. -/
inductive Event where
  | declared (x : SymbolId)
  | erased
deriving DecidableEq

/-- The symbol that has the name after the event. -/
def Event.symbol? : Event → Option SymbolId
  | declared x => some x
  | erased => none

/-- What the call does to its target, if it succeeds. -/
def Call.event? (t : Tree) : Call → Option Event
  | declare s spelling span details =>
    match t.declare s (.ofSpelling spelling span) details with
    | .ok (x, _) => some (.declared x)
    | .error _ => none
  | erase s spelling span =>
    if (t.erase s (.ofSpelling spelling span)).1 = 1 then some .erased else none
  | _ => none

/-- What the call does to the name `text` of the scope `s`. -/
def Call.eventAt? (s : ScopeId) (text : String) (t : Tree) (c : Call) : Option Event :=
  if c.target? = some (s, text) then c.event? t else none

/-- The successful declarations and removals of the name `text` of the scope `s`. -/
def history (s : ScopeId) (text : String) : Tree → List Call → List Event
  | _, [] => []
  | t, c :: rest => (c.eventAt? s text t).toList ++ history s text (c.apply t) rest

section

variable {t u : Tree}

/-! ## Declaring and removing -/

/-- Changing the table of `s` changes what `s` declares, and what no other scope declares. -/
theorem local?_modifyTable {s : ScopeId} (hs : t.HasScope s) (f : Table SymbolId → Table SymbolId)
    (q : ScopeId) (text : String) :
  (t.modifyScope s fun r => { r with table := f r.table }).local? q text
    = if q = s then (f (t.scope s).table).get? text else t.local? q text
  := by
  rw [local?, scope_modifyScope]
  by_cases hq : q = s
  · rw [if_pos ⟨hq, hs⟩, if_pos hq, hq]
  · rw [if_neg fun h => hq h.1, if_neg hq, local?]

/-- A declaration fails if the name is taken. -/
theorem declare_eq_error_iff {s : ScopeId} {name : Name} {details : Details} :
  (∃ d, t.declare s name details = .error d) ↔ (t.local? s name.text).isSome
  := by
  rw [Tree.declare, Table.contains]
  split
  · next h => exact iff_of_true ⟨_, rfl⟩ h
  · next h =>
    refine iff_of_false ?_ h
    rintro ⟨d, hd⟩
    cases hd

/-- A declaration creates one symbol. -/
theorem size_symbols_declare {s : ScopeId} {name : Name} {details : Details} {x : SymbolId}
    (hu : t.declare s name details = .ok (x, u)) :
  u.symbols.size = t.symbols.size + 1
  := by
  obtain ⟨-, -, rfl⟩ := declare_eq_ok hu
  apply Array.size_push

/-- After a declaration the name stands for the new symbol in `s`, and all other names stand for
what they did. -/
theorem local?_declare {s : ScopeId} (hs : t.HasScope s) {name : Name} {details : Details}
    {x : SymbolId} (hu : t.declare s name details = .ok (x, u)) (q : ScopeId) (text : String) :
  u.local? q text = if q = s ∧ text = name.text then some x else t.local? q text
  := by
  obtain ⟨-, rfl, rfl⟩ := declare_eq_ok hu
  have hgrown (symbols : Array Symbol) : HasScope { t with symbols := symbols } s := hs
  rw [enter, local?_modifyTable (hgrown _) fun table => table.insert name.text ⟨t.symbols.size⟩]
  by_cases hq : q = s
  · by_cases htext : text = name.text
    · rw [if_pos hq, if_pos ⟨hq, htext⟩, htext, Table.get?_insert_self]
    · rw [if_pos hq, if_neg fun h => htext h.2, Table.get?_insert_of_ne _ _ htext, hq]
      rfl
  · rw [if_neg hq, if_neg fun h => hq h.1]
    rfl

/-- A removal succeeds if the name is taken. -/
theorem fst_erase (t : Tree) (s : ScopeId) (name : Name) :
  (t.erase s name).1 = if (t.local? s name.text).isSome then 1 else 0
  := by
  rw [Tree.erase]
  cases t.local? s name.text <;> rfl

/-- After a removal the name stands for nothing in `s`, and all other names stand for what they did.
-/
theorem local?_erase {s : ScopeId} (hs : t.HasScope s) (name : Name) (q : ScopeId)
    (text : String) :
  (t.erase s name).2.local? q text
    = if q = s ∧ text = name.text then none else t.local? q text
  := by
  rw [Tree.erase]
  split
  · next hnone =>
    split
    · next h => rw [h.1, h.2, hnone]
    · rfl
  · next x _ =>
    have hs' : (t.addOccurrence x .removed name.span).HasScope s := hs
    rw [local?_modifyTable hs' fun table => table.erase name.text]
    by_cases hq : q = s
    · by_cases htext : text = name.text
      · rw [if_pos hq, if_pos ⟨hq, htext⟩, htext, Table.get?_erase_self]
      · rw [if_pos hq, if_neg fun h => htext h.2, Table.get?_erase_of_ne _ htext, hq]
        rfl
    · rw [if_neg hq, if_neg fun h => hq h.1]
      rfl

/-- Trees that are alike have the same tables, so a name stands for the same in both. -/
theorem Alike.local? (h : t.Alike u) (s : ScopeId) (text : String) :
  u.local? s text = t.local? s text
  := by
  rw [Tree.local?, Tree.local?, h.table]

/-- A new scope declares nothing, and takes no name away from another one. -/
theorem local?_makeScope {parent s : ScopeId} {kind : ScopeKind} {symbol : Option SymbolId}
    (hu : t.makeScope parent kind symbol = .ok (s, u)) (q : ScopeId) (text : String) :
  u.local? q text = t.local? q text
  := by
  rw [(alike_nest_of_makeScope hu).local?, local?, local?, table_scope_nest]

/-! ## A single call -/

/-- The event of a call at the name it is aimed at is the event of the call, and at any other name
there is none. -/
theorem eventAt?_eq (s : ScopeId) (text : String) (t : Tree) (c : Call) {r : ScopeId}
    {spelling : String} (h : c.target? = some (r, Text.foldCase spelling)) :
  c.eventAt? s text t = if s = r ∧ text = Text.foldCase spelling then c.event? t else none
  := by
  simp only [Call.eventAt?, h, Option.some.injEq, Prod.mk.injEq, eq_comm]

/-- What a scope gives a name to changes by the event alone. -/
theorem local?_apply {c : Call} (hc : c.Valid t) (s : ScopeId) (text : String) :
  (c.apply t).local? s text
    = ((c.eventAt? s text t).map Event.symbol?).getD (t.local? s text)
  := by
  have hother (h : t.Alike (c.apply t)) (hevent : c.target? = none) :
      (c.apply t).local? s text
        = ((c.eventAt? s text t).map Event.symbol?).getD (t.local? s text) := by
    rw [h.local?, Call.eventAt?, hevent]
    rfl
  cases c with
  | declare r spelling span details =>
    rw [Call.apply, Call.operation, Operation.apply, eventAt?_eq _ _ _ _ rfl, Call.event?]
    cases hu : t.declare r (.ofSpelling spelling span) details with
    | error d => split <;> rfl
    | ok outcome =>
      rw [after, local?_declare hc hu, Name.text_ofSpelling]
      split <;> rfl
  | erase r spelling span =>
    rw [Call.apply, Call.operation, Operation.apply, eventAt?_eq _ _ _ _ rfl, Call.event?,
      fst_erase, local?_erase hc, Name.text_ofSpelling]
    split
    · next h =>
      rw [h.1, h.2]
      cases t.local? r (Text.foldCase spelling) <;> rfl
    · rfl
  | find r spelling span => apply hother (alike_useIfFound _ _ _) rfl
  | findSymbol r spelling span => apply hother (alike_useIfFound _ _ _) rfl
  | makeScope parent kind symbol =>
    rw [Call.apply, Call.operation, Operation.apply]
    cases hu : t.makeScope parent kind symbol with
    | error d => rfl
    | ok outcome => apply local?_makeScope hu

/-- Only new symbols are declared. -/
theorem of_event?_eq_declared {c : Call} {x : SymbolId} (h : c.event? t = some (.declared x)) :
  x = ⟨t.symbols.size⟩ ∧ (c.apply t).symbols.size = t.symbols.size + 1
  := by
  cases c with
  | declare s spelling span details =>
    rw [Call.event?] at h
    split at h
    · next y u hu =>
      cases h
      rw [Call.apply, Call.operation, Operation.apply, hu]
      obtain ⟨-, hnew, -⟩ := declare_eq_ok hu
      exact ⟨hnew, size_symbols_declare hu⟩
    · contradiction
  | erase s spelling span =>
    rw [Call.event?] at h
    split at h <;> cases h
  | _ => contradiction

/-- An event at some name is the event of the call. -/
theorem event?_of_eventAt? {c : Call} {s : ScopeId} {text : String} {event : Event}
    (h : c.eventAt? s text t = some event) :
  c.event? t = some event
  := by
  rw [Call.eventAt?] at h
  split at h
  · apply h
  · contradiction

theorem persists_applyCall (t : Tree) (c : Call) :
  t.Persists (c.apply t)
  := t.persists_apply c.operation

/-- A valid call keeps a tree coherent, whatever the details of a declaration refer to. -/
theorem Coherent.applyCall (h : t.Coherent) {c : Call} (hc : c.Valid t) :
  (c.apply t).Coherent
  := by
  cases c with
  | declare s spelling span details =>
    rw [Call.apply, Call.operation, Operation.apply]
    cases hu : t.declare s (.ofSpelling spelling span) details with
    | error => apply h
    | ok outcome => apply h.declare hu
  | _ =>
    apply Coherent.apply h
    apply hc

/-! ## Runs -/

/-- The last event of its history decides about a name. -/
theorem local?_call {calls : List Call} (h : t.ValidCalls calls) (s : ScopeId) (text : String) :
  (t.call calls).local? s text
    = (((history s text t calls).getLast?).map Event.symbol?).getD (t.local? s text)
  := by
  induction calls generalizing t with
  | nil => rfl
  | cons c rest ih =>
    rw [call, List.foldl_cons, ← call, ih h.2, local?_apply h.1, history, List.getLast?_append]
    cases (history s text (c.apply t) rest).getLast? with
    | some event => rfl
    | none => cases c.eventAt? s text t <;> rfl

/-- No sequence of calls takes away a scope, symbol or spec. -/
theorem persists_call (t : Tree) (calls : List Call) :
  t.Persists (t.call calls)
  := by
  induction calls generalizing t with
  | nil => apply persists_refl
  | cons c rest ih => apply (t.persists_applyCall c).trans (ih _)

/-- A tree stays coherent through valid calls. -/
theorem Coherent.call (h : t.Coherent) {calls : List Call} (hcalls : t.ValidCalls calls) :
  (t.call calls).Coherent
  := by
  induction calls generalizing t with
  | nil => apply h
  | cons c rest ih => apply ih (h.applyCall hcalls.1) hcalls.2

/-- A symbol that was declared in the history of a name exists after the calls. -/
theorem index_of_mem_history {s : ScopeId} {text : String} {calls : List Call} {x : SymbolId}
    (h : .declared x ∈ history s text t calls) :
  x.index < (t.call calls).symbols.size
  := by
  induction calls generalizing t with
  | nil => contradiction
  | cons c rest ih =>
    rcases List.mem_append.mp h with hfirst | hrest
    · have hevent := event?_of_eventAt? (Option.mem_toList.mp hfirst)
      obtain ⟨rfl, hsize⟩ := of_event?_eq_declared hevent
      have hrest := (persists_call (c.apply t) rest).symbols
      rw [hsize] at hrest
      apply hrest
    · apply ih hrest

/-! ## Symbols without a name -/

/-- The symbol exists, and no scope gives it a name. -/
def Nameless (t : Tree) (x : SymbolId) : Prop :=
  t.HasSymbol x ∧ ∀ s text, t.local? s text ≠ some x

/-- Noting the use of one symbol leaves every other symbol as it was. -/
theorem symbol_useIfFound {x : SymbolId} {found : Option SymbolId} (h : found ≠ some x)
    (name : Name) :
  (t.useIfFound name found).2.symbol x = t.symbol x
  := by
  cases found with
  | none => rfl
  | some y =>
    apply symbol_modifySymbol_of_ne
    rintro rfl
    exact h rfl

/-- A symbol without a name is found by no look-up. -/
theorem Nameless.visible? {x : SymbolId} (h : t.Nameless x) (s : ScopeId) (text : String) :
  t.visible? s text ≠ some x
  := by
  intro hx
  obtain ⟨inner, q, outer, -, hq, -⟩ := associated?_eq_some_iff.mp hx
  exact h.2 q text hq

/-- No call reaches a symbol without a name, nor does it give the symbol a name again. -/
theorem Nameless.apply {x : SymbolId} (h : t.Nameless x) {c : Call} (hc : c.Valid t) :
  (c.apply t).Nameless x
  := by
  use (persists_applyCall t c).hasSymbol h.1
  intro s text hx
  rw [local?_apply hc] at hx
  cases hevent : c.eventAt? s text t with
  | none =>
    rw [hevent] at hx
    exact h.2 s text hx
  | some event =>
    rw [hevent] at hx
    cases event with
    | declared y =>
      obtain rfl := Option.some.inj hx
      obtain ⟨rfl, -⟩ := of_event?_eq_declared (event?_of_eventAt? hevent)
      exact Nat.lt_irrefl _ h.1
    | erased => contradiction

/-- A declaration leaves every symbol as it was but the new one. -/
theorem symbol_declare_of_ne {s : ScopeId} {name : Name} {details : Details} {x y : SymbolId}
    (hu : t.declare s name details = .ok (x, u)) (hy : y ≠ x) :
  u.symbol y = t.symbol y
  := by
  obtain ⟨-, rfl, rfl⟩ := declare_eq_ok hu
  rw [symbol_enter, if_neg]
  intro hindex
  exact hy (congrArg SymbolId.mk hindex)

/-- A removal leaves every symbol as it was but the removed one. -/
theorem symbol_erase_of_ne {s : ScopeId} {name : Name} {x : SymbolId}
    (h : t.local? s name.text ≠ some x) :
  (t.erase s name).2.symbol x = t.symbol x
  := by
  rw [Tree.erase]
  split
  · rfl
  · next y hy =>
    apply symbol_modifySymbol_of_ne
    rintro rfl
    exact h hy

/-- A new scope is noted at the symbol that introduces it, and nowhere else. -/
theorem field_symbol_makeScope {α : Type} (field : Symbol → α)
    (hfield : ∀ (y : Symbol) scope, field { y with scope := scope } = field y)
    {parent s : ScopeId} {kind : ScopeKind} {symbol : Option SymbolId}
    (hu : t.makeScope parent kind symbol = .ok (s, u)) (x : SymbolId) :
  field (u.symbol x) = field (t.symbol x)
  := by
  obtain ⟨-, -, -, ⟨rfl, rfl⟩ | ⟨y, rfl, rfl⟩⟩ := makeScope_eq_ok hu
  · rfl
  · apply field_modifySymbol field
    intro z
    apply hfield

/-- What a symbol is and where it occurs. -/
def account (t : Tree) (x : SymbolId) : Details × List Occurrence :=
  ((t.symbol x).details, (t.symbol x).occurrences)

/-- A call leaves the account of a symbol without a name as it was. -/
theorem Nameless.account_apply {x : SymbolId} (h : t.Nameless x) (c : Call) :
  (c.apply t).account x = t.account x
  := by
  have hsame (hu : (c.apply t).symbol x = t.symbol x) :
      (c.apply t).account x = t.account x := by rw [account, account, hu]
  cases c with
  | declare s spelling span details =>
    apply hsame
    rw [Call.apply, Call.operation, Operation.apply]
    cases hu : t.declare s (.ofSpelling spelling span) details with
    | error d => rfl
    | ok outcome =>
      obtain ⟨-, hnew, -⟩ := declare_eq_ok hu
      apply symbol_declare_of_ne hu
      -- the symbol that the call creates did not exist
      rintro rfl
      rw [hnew] at h
      exact Nat.lt_irrefl _ h.1
  | erase s spelling span =>
    apply hsame
    apply symbol_erase_of_ne
    apply h.2
  | find s spelling span =>
    apply hsame
    apply symbol_useIfFound
    apply h.2
  | findSymbol s spelling span =>
    apply hsame
    apply symbol_useIfFound
    apply h.visible?
  | makeScope parent kind symbol =>
    rw [Call.apply, Call.operation, Operation.apply]
    cases hu : t.makeScope parent kind symbol with
    | error d => rfl
    | ok outcome =>
      apply field_symbol_makeScope (fun y => (y.details, y.occurrences)) _ hu
      intro y scope
      rfl

/-- No sequence of valid calls changes the account of a symbol without a name. -/
theorem Nameless.account_call {x : SymbolId} (h : t.Nameless x) {calls : List Call}
    (hcalls : t.ValidCalls calls) :
  (t.call calls).account x = t.account x
  := by
  induction calls generalizing t with
  | nil => rfl
  | cons c rest ih =>
    rw [call, List.foldl_cons, ← call, ih (h.apply hcalls.1) hcalls.2, h.account_apply]

/-- A scope that declares something exists. -/
theorem hasScope_of_local? {s : ScopeId} {text : String} {x : SymbolId}
    (h : t.local? s text = some x) :
  t.HasScope s
  := by
  by_contra hs
  rw [local?, scope_eq_default hs] at h
  contradiction

/-- A symbol has a single name, which a removal takes away. -/
theorem Coherent.nameless_erase (h : t.Coherent) {s : ScopeId} {name : Name} {x : SymbolId}
    (hx : t.local? s name.text = some x) :
  (t.erase s name).2.Nameless x
  := by
  obtain ⟨hsymbol, hname, howner⟩ := h.entry_of_local? hx
  use (t.persists_erase s name).hasSymbol hsymbol
  intro q text hq
  rw [local?_erase (hasScope_of_local? hx)] at hq
  split at hq
  · contradiction
  · next hne =>
    obtain ⟨-, hname', howner'⟩ := h.entry_of_local? hq
    exact hne ⟨howner'.symm.trans howner, hname'.symm.trans hname⟩

/-- A removal is noted as the last occurrence of the symbol, whose details it keeps. -/
theorem Coherent.account_erase (h : t.Coherent) {s : ScopeId} {name : Name} {x : SymbolId}
    (hx : t.local? s name.text = some x) :
  (t.erase s name).2.account x
    = ((t.symbol x).details, (t.symbol x).occurrences ++ [⟨.removed, name.span⟩])
  := by
  have hgains := gains_addOccurrence (h.entry_of_local? hx).1 .removed name.span
  rw [Tree.erase, hx, account, symbol_modifyScope, hgains.symbol, occurrenceOf, if_pos rfl]

/-! ## Names as a map -/

/-- A look-up in one scope gives what the table says. -/
theorem fst_find (t : Tree) (s : ScopeId) (name : Name) :
  (t.find s name).1 = t.local? s name.text
  := fst_useIfFound t name _

end

/-- Look-ups answer what the history of the name says.  A declaration fails and a removal succeeds
exactly for a name that is found, a declared symbol is a new one, and no call changes what is
found elsewhere.  A symbol whose name was removed keeps what it is and where it occurred. -/
theorem find_of_validCalls {calls : List Call} (h : initial.ValidCalls calls) :
  let t := initial.call calls
  (∀ s spelling span x, (t.find s (.ofSpelling spelling span)).1 = some x
      ↔ (history s (Text.foldCase spelling) initial calls).getLast? = some (.declared x))
    ∧ (∀ s spelling span details,
      ((∃ d, t.declare s (.ofSpelling spelling span) details = .error d)
        ↔ (t.find s (.ofSpelling spelling span)).1.isSome)
      ∧ ∀ x u, t.declare s (.ofSpelling spelling span) details = .ok (x, u) →
        ∀ r text, .declared x ∉ history r text initial calls)
    ∧ (∀ s spelling span, (t.erase s (.ofSpelling spelling span)).1
      = if (t.find s (.ofSpelling spelling span)).1.isSome then 1 else 0)
    ∧ (∀ c : Call, c.Valid t → ∀ s spelling span,
      c.target? ≠ some (s, Text.foldCase spelling) →
      ((c.apply t).find s (.ofSpelling spelling span)).1
        = (t.find s (.ofSpelling spelling span)).1)
    ∧ ∀ s spelling span x, (t.find s (.ofSpelling spelling span)).1 = some x →
      ∀ later, ValidCalls (t.erase s (.ofSpelling spelling span)).2 later →
        let u := call (t.erase s (.ofSpelling spelling span)).2 later
        u.HasSymbol x ∧ (u.symbol x).origin = (t.symbol x).origin
          ∧ (u.symbol x).details = (t.symbol x).details
          ∧ (u.symbol x).occurrences = (t.symbol x).occurrences ++ [⟨.removed, span⟩]
  := by
  intro t
  have hcoherent : t.Coherent := coherent_initial.call h
  -- in the beginning nothing has a name, so the history decides
  have hlocal (s : ScopeId) (text : String) : initial.local? s text = none := by
    cases hx : initial.local? s text with
    | none => rfl
    | some x => exact absurd (coherent_initial.hasSymbol_of_local? hx) (Nat.not_lt_zero _)
  refine ⟨?_, ?_, ?_, ?_, ?_⟩
  · intro s spelling span x
    rw [fst_find, local?_call h, hlocal, Name.text_ofSpelling]
    cases (history s (Text.foldCase spelling) initial calls).getLast? with
    | none => simp
    | some event => cases event <;> simp [Event.symbol?]
  · intro s spelling span details
    rw [fst_find]
    use declare_eq_error_iff
    intro x u hu r text hx
    obtain ⟨-, rfl, -⟩ := declare_eq_ok hu
    exact Nat.lt_irrefl _ (index_of_mem_history hx)
  · intro s spelling span
    rw [fst_find]
    apply fst_erase
  · intro c hc s spelling span htarget
    rw [fst_find, fst_find, local?_apply hc, Call.eventAt?, Name.text_ofSpelling, if_neg htarget]
    rfl
  · intro s spelling span x hx later hlater u
    rw [fst_find] at hx
    have hpersists : t.Persists u := (t.persists_erase s _).trans (persists_call _ later)
    have hsymbol := hcoherent.hasSymbol_of_local? hx
    have haccount := (hcoherent.nameless_erase hx).account_call hlater
    rw [hcoherent.account_erase hx] at haccount
    obtain ⟨hdetails, hoccurrences⟩ := Prod.mk.inj haccount
    exact ⟨hpersists.hasSymbol hsymbol, hpersists.symbol x hsymbol, hdetails, hoccurrences⟩

/-- A name is declared in a module, removed there, and declared anew in another case of its
letters, while the global scope gives the same name to another symbol. -/
def redeclaringCalls : List Call :=
  let span : Span := ⟨"a.f90", 0, 1⟩
  [.declare .global "X" span .mainProgram,
    .declare .global "m" span (.moduleUnit false),
    .makeScope .global .moduleUnit (some ⟨1⟩),
    .declare ⟨1⟩ "x" span .unknown,
    .findSymbol ⟨1⟩ "X" span,
    .erase ⟨1⟩ "X" span,
    .declare ⟨1⟩ "X" span .mainProgram]

/-- The module gives the name to the symbol declared last, and the removed symbol, which was
found once, is kept. -/
theorem find_of_validCalls_redeclaringCalls :
  let t := initial.call redeclaringCalls
  ((history ⟨1⟩ "x" initial redeclaringCalls = [.declared ⟨2⟩, .erased, .declared ⟨3⟩]
      ∧ history .global "x" initial redeclaringCalls = [.declared ⟨0⟩])
    ∧ (t.symbol ⟨2⟩).occurrences.map Occurrence.kind = [.used, .removed])
  ∧ (∀ s spelling span x, (t.find s (.ofSpelling spelling span)).1 = some x
      ↔ (history s (Text.foldCase spelling) initial redeclaringCalls).getLast?
        = some (.declared x))
    ∧ (∀ s spelling span details,
      ((∃ d, t.declare s (.ofSpelling spelling span) details = .error d)
        ↔ (t.find s (.ofSpelling spelling span)).1.isSome)
      ∧ ∀ x u, t.declare s (.ofSpelling spelling span) details = .ok (x, u) →
        ∀ r text, .declared x ∉ history r text initial redeclaringCalls)
    ∧ (∀ s spelling span, (t.erase s (.ofSpelling spelling span)).1
      = if (t.find s (.ofSpelling spelling span)).1.isSome then 1 else 0)
    ∧ (∀ c : Call, c.Valid t → ∀ s spelling span,
      c.target? ≠ some (s, Text.foldCase spelling) →
      ((c.apply t).find s (.ofSpelling spelling span)).1
        = (t.find s (.ofSpelling spelling span)).1)
    ∧ ∀ s spelling span x, (t.find s (.ofSpelling spelling span)).1 = some x →
      ∀ later, ValidCalls (t.erase s (.ofSpelling spelling span)).2 later →
        let u := call (t.erase s (.ofSpelling spelling span)).2 later
        u.HasSymbol x ∧ (u.symbol x).origin = (t.symbol x).origin
          ∧ (u.symbol x).details = (t.symbol x).details
          ∧ (u.symbol x).occurrences = (t.symbol x).occurrences ++ [⟨.removed, span⟩]
  := by
  have hvalid : initial.ValidCalls redeclaringCalls := by decide +kernel
  refine ⟨⟨⟨?_, ?_⟩, ?_⟩, find_of_validCalls hvalid⟩
  · decide +kernel
  · decide +kernel
  · decide +kernel

end FortranScope.Tree
