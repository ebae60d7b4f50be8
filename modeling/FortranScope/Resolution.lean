import FortranScope.Session

/-!
# Resolution

When every declaration is known, `Session.resolve` settles the deferred expressions of all
symbols: the values of type parameters, the initial values and the bounds.  It visits the
scopes from the global one inward and the symbols of a scope in the order of declaration,
so a named constant is known to the declarations after it.  While a declaration is being
settled its own name has no value.
-/

namespace FortranScope

/-- How many deferred expressions were settled, by outcome. -/
structure Stats where
  resolved : Nat
  errors : Nat
deriving DecidableEq, Repr, Inhabited

/-- The session and the count of the expressions settled so far. -/
structure Pass where
  session : Session
  stats : Stats
deriving DecidableEq, Inhabited

namespace Stats

/-- No expression settled. -/
def zero : Stats := ⟨0, 0⟩

/-- The count after an expression came out as given. -/
def add (stats : Stats) (outcome : Deferred) : Stats :=
  match outcome with
  | .resolved _ => { stats with resolved := stats.resolved + 1 }
  | _ => { stats with errors := stats.errors + 1 }

end Stats

namespace Pass

/-- `p` with the tree of its session changed by `f`. -/
def modifyTree (p : Pass) (f : Tree → Tree) : Pass :=
  { p with session := p.session.modifyTree f }

/-- The tree of the session. -/
def tree (p : Pass) : Tree := p.session.context.tree

/-! ## Parts of a declaration -/

/-- Settles a deferred expression in `s` and counts it, if it was not settled before. -/
def settle (p : Pass) (s : ScopeId) (d : Deferred) : Deferred × Pass :=
  if d.isUnresolved then
    let settled := p.session.settle s d
    (settled.1, ⟨settled.2, p.stats.add settled.1⟩)
  else (d, p)

/-- Settles the expression of an extent. -/
def settleExtent (p : Pass) (s : ScopeId) : Extent → Extent × Pass
  | .assumed => (.assumed, p)
  | .colon => (.colon, p)
  | .explicit value =>
    let settled := p.settle s value
    (.explicit settled.1, settled.2)

/-- Settles an initial value, if there is one. -/
def settleInit (p : Pass) (s : ScopeId) : Option Deferred → Option Deferred × Pass
  | none => (none, p)
  | some init =>
    let settled := p.settle s init
    (some settled.1, settled.2)

/-- Settles the bounds of dimensions, lower before upper. -/
def settleShape (p : Pass) (s : ScopeId) : List Dimension → List Dimension × Pass
  | [] => ([], p)
  | dimension :: shape =>
    let lower := p.settleExtent s dimension.lower
    let upper := lower.2.settleExtent s dimension.upper
    let rest := upper.2.settleShape s shape
    (⟨lower.1, upper.1⟩ :: rest.1, rest.2)

/-- Settles the values of type parameters. -/
def settleParams (p : Pass) (s : ScopeId) :
    List (Option String × Extent) → List (Option String × Extent) × Pass
  | [] => ([], p)
  | param :: params =>
    let value := p.settleExtent s param.2
    let rest := value.2.settleParams s params
    ((param.1, value.1) :: rest.1, rest.2)

/-- Settles the details of a declaration: the initial value, then the bounds. -/
def settleDetails (p : Pass) (s : ScopeId) : Details → Details × Pass
  | .object details =>
    let init := p.settleInit s details.init
    let shape := init.2.settleShape s details.shape
    (.object { details with init := init.1, shape := shape.1 }, shape.2)
  | .typeParam details =>
    let init := p.settleInit s details.init
    (.typeParam { details with init := init.1 }, init.2)
  | details => (details, p)

/-! ## Declarations, scopes and programs -/

/-- Settles the parameter values of the derived type that the symbol `x` is declared with. -/
def resolveType (p : Pass) (x : SymbolId) : Pass :=
  match (p.tree.symbol x).details.type?.bind DeclType.spec? with
  | none => p
  | some d =>
    let params := p.settleParams (p.tree.symbol x).owner (p.tree.spec d).params
    params.2.modifyTree fun t => t.modifySpec d fun e => { e with params := params.1 }

/-- Settles the details of the symbol `x`, which has none while this is done. -/
def resolveDetails (p : Pass) (x : SymbolId) : Pass :=
  let y := p.tree.symbol x
  let hidden := p.modifyTree fun t => t.setDetails x .unknown
  let details := hidden.settleDetails y.owner y.details
  details.2.modifyTree fun t => t.setDetails x details.1

/-- Settles the declaration of the symbol `x`. -/
def resolveSymbol (p : Pass) (x : SymbolId) : Pass := (p.resolveType x).resolveDetails x

/-- Settles the declarations of `s`. -/
def resolveScope (p : Pass) (s : ScopeId) : Pass :=
  (p.tree.scope s).table.values.foldl resolveSymbol p

end Pass

/-- The scope `s` and those inside it down to the given depth, each before those inside
it. -/
def Tree.descendants (t : Tree) : Nat → ScopeId → List ScopeId
  | 0, s => [s]
  | depth + 1, s => s :: (t.scope s).children.flatMap (t.descendants depth)

/-- Every scope that descends from the global one, which is less deep than there are
scopes. -/
def Tree.walk (t : Tree) : List ScopeId := t.descendants t.scopes.size .global

/-- Settles the declarations of all scopes. -/
def Session.resolve (r : Session) : Stats × Session :=
  let p := r.context.tree.walk.foldl Pass.resolveScope ⟨r, .zero⟩
  (p.stats, p.session)

end FortranScope
