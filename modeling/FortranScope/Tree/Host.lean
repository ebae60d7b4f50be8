import FortranScope.Tree

/-!
# Host association

A name that a scope does not declare may be known there from the surrounding scopes.
`Tree.hosts` is the chain of scopes from a scope outward and `Tree.associated?` the symbol
that a name denotes along such a chain: the definition of a derived type is passed over, and
every other scope on the way has to let the name in, as its `IMPORT` statements say.
-/

namespace FortranScope.Tree

/-! ## Chains of scopes -/

/-- The scope `s`, the scope around it, and so on outward.  A scope is created after the one
around it, so a parent that is not older ends the chain. -/
def hosts (t : Tree) (s : ScopeId) : List ScopeId :=
  match (t.scope s).parent with
  | none => [s]
  | some p => if p.index < s.index then s :: hosts t p else [s]
termination_by s.index

/-! ## Policies -/

/-- Whether `s` is the body of an interface. -/
def isInterfaceBody (t : Tree) (s : ScopeId) : Bool :=
  (t.scope s).symbol.any fun x => (t.symbol x).details.isInterfaceBody

/-- The policy of `s`: that of its `IMPORT` statements if there are any.  Without one, an
interface body imports nothing and any other scope everything. -/
def importPolicy (t : Tree) (s : ScopeId) : ImportPolicy :=
  match (t.scope s).importPolicy with
  | some policy => policy
  | none => if t.isInterfaceBody s then .none else .default

/-- Whether `s` lets the name `text` in from the scope around it. -/
def canImport (t : Tree) (s : ScopeId) (text : String) : Bool :=
  if (t.scope s).kind = .global then false
  else
    match t.importPolicy s with
    | .none => false
    | .all => true
    | .default => true
    | .only => text ∈ (t.scope s).importNames

/-- Takes an `IMPORT` statement of `s` into account.  The first one sets the policy, a later
one that may not stand beside it is reported, and none of them changes the policy. -/
def setImport (t : Tree) (s : ScopeId) (policy : ImportPolicy) : Option Cause × Tree :=
  match (t.scope s).importPolicy with
  | some first => (first.conflict? policy, t)
  | none => (none, t.modifyScope s fun r => { r with importPolicy := some policy })

/-! ## Look-up -/

/-- The symbol that the name `text` denotes along a chain of scopes, innermost first. -/
def associated? (t : Tree) (text : String) : List ScopeId → Option SymbolId
  | [] => none
  | s :: outer =>
    if (t.scope s).kind = .derivedType then associated? t text outer
    else
      match t.local? s text with
      | some x => some x
      | none => if t.canImport s text then associated? t text outer else none

/-- The symbol that the name `text` denotes in `s` by host association. -/
def visible? (t : Tree) (s : ScopeId) (text : String) : Option SymbolId :=
  t.associated? text (t.hosts s)

/-- Finds `name` in `s` or, as far as its policy permits, in the scopes around it. -/
def findSymbol (t : Tree) (s : ScopeId) (name : Name) : Option SymbolId × Tree :=
  t.useIfFound name (t.visible? s name.text)

/-- Lets `name` into `s`, if it is known in the scope around `s`, and tells whether it is. -/
def addImportName (t : Tree) (s : ScopeId) (name : Name) : Except Defect (Bool × Tree) :=
  match (t.scope s).parent with
  | none => .error (.noParent (t.scope s).kind)
  | some p =>
    match t.findSymbol p name with
    | (none, _) => .ok (false, t)
    | (some _, found) =>
      .ok (true, found.modifyScope s fun r =>
        { r with importNames := r.importNames.insert name.text })

end FortranScope.Tree
