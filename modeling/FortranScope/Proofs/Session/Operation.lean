import FortranScope.Resolution
import FortranScope.Tree.Range
import FortranScope.Tree.Units

/-!
# Reachable sessions

A session develops by operations on its tree, by analyses and by resolutions.  An operation
is valid if the identities that it is given exist, and `Session.Reachable` holds of the
sessions that valid operations lead to.  An operation that fails leads nowhere else.
-/

namespace FortranScope

/-! ## Identities that exist -/

namespace Tree

/-- The scope `s` exists. -/
def HasScope (t : Tree) (s : ScopeId) : Prop := s.index < t.scopes.size

/-- The symbol `x` exists. -/
def HasSymbol (t : Tree) (x : SymbolId) : Prop := x.index < t.symbols.size

/-- The derived type spec `d` exists. -/
def HasSpec (t : Tree) (d : SpecId) : Prop := d.index < t.specs.size

instance (t : Tree) (s : ScopeId) : Decidable (t.HasScope s) :=
  inferInstanceAs (Decidable (s.index < t.scopes.size))

instance (t : Tree) (x : SymbolId) : Decidable (t.HasSymbol x) :=
  inferInstanceAs (Decidable (x.index < t.symbols.size))

instance (t : Tree) (d : SpecId) : Decidable (t.HasSpec d) :=
  inferInstanceAs (Decidable (d.index < t.specs.size))

end Tree

mutual

/-- The symbols that an expression refers to. -/
def Expr.symbols : Expr → List SymbolId
  | .constant _ => []
  | .designator _ x => [x]
  | .component base _ => base.symbols
  | .reference _ symbol args => symbol.toList ++ args.symbols
  | .parentheses inner => inner.symbols
  | .unary _ operand => operand.symbols
  | .binary _ left right => left.symbols ++ right.symbols

/-- The symbols that arguments refer to. -/
def Expr.Args.symbols : Expr.Args → List SymbolId
  | .nil => []
  | .cons _ value rest => value.symbols ++ rest.symbols

end

/-- The symbols that a deferred expression refers to.  Before it is resolved there are none. -/
def Deferred.symbols (d : Deferred) : List SymbolId := d.expr?.toList.flatMap Expr.symbols

/-- The symbols that an extent refers to. -/
def Extent.symbols (e : Extent) : List SymbolId := e.explicit?.toList.flatMap Deferred.symbols

/-- The symbols that a dimension refers to. -/
def Dimension.symbols (d : Dimension) : List SymbolId := d.lower.symbols ++ d.upper.symbols

namespace Details

/-- The symbols that a declaration refers to. -/
def symbols : Details → List SymbolId
  | subprogram details => details.dummyArgs ++ details.result.toList
  | object details =>
    details.init.toList.flatMap Deferred.symbols ++ details.shape.flatMap Dimension.symbols
  | typeParam details => details.init.toList.flatMap Deferred.symbols
  | procedure interface => interface.symbol?.toList
  | generic _ specifics => specifics
  | _ => []

/-- The derived type spec that an entity is declared with. -/
def spec? (details : Details) : Option SpecId := details.type?.bind DeclType.spec?

end Details

/-- Whatever `details` refer to exists. -/
def Tree.Knows (t : Tree) (details : Details) : Prop :=
  (∀ x ∈ details.symbols, t.HasSymbol x) ∧ ∀ d ∈ details.spec?.toList, t.HasSpec d

instance (t : Tree) (details : Details) : Decidable (t.Knows details) :=
  inferInstanceAs (Decidable (_ ∧ _))

/-! ## Operations on trees -/

/-- An operation on a tree. -/
inductive Tree.Operation where
  | makeScope (parent : ScopeId) (kind : ScopeKind) (symbol : Option SymbolId)
  | declare (s : ScopeId) (name : Name) (details : Details)
  | find (s : ScopeId) (name : Name)
  | findSymbol (s : ScopeId) (name : Name)
  | erase (s : ScopeId) (name : Name)
  | setImport (s : ScopeId) (policy : ImportPolicy)
  | addImportName (s : ScopeId) (name : Name)
  | addSubmodule (s : ScopeId) (name : String) (submodule : ScopeId)
  | makeSpec (s : ScopeId) (name : String)
  | bindSpec (d : SpecId) (s : ScopeId)
  | addParam (d : SpecId) (name : Option String) (value : Extent)
  | addRange (s : ScopeId) (span : Span)
  | setDetails (x : SymbolId) (details : Details)
  | addAttr (x : SymbolId) (attr : Attr)
  | removeAttr (x : SymbolId) (attr : Attr)

/-- The tree that an operation gives, or `t` if the operation failed. -/
def Tree.after {ε α : Type} (t : Tree) : Except ε (α × Tree) → Tree
  | .ok outcome => outcome.2
  | .error _ => t

namespace Tree.Operation

/-- The operation is on identities that exist. -/
def Valid (t : Tree) : Operation → Prop
  | makeScope parent _ symbol => t.HasScope parent ∧ ∀ x ∈ symbol.toList, t.HasSymbol x
  | declare s _ details => t.HasScope s ∧ t.Knows details
  | find s _ => t.HasScope s
  | findSymbol s _ => t.HasScope s
  | erase s _ => t.HasScope s
  | setImport s _ => t.HasScope s
  | addImportName s _ => t.HasScope s
  | addSubmodule s _ submodule => t.HasScope s ∧ t.HasScope submodule
  | makeSpec s _ => t.HasScope s
  | bindSpec d s => t.HasSpec d ∧ t.HasScope s
  | addParam d _ value => t.HasSpec d ∧ ∀ x ∈ value.symbols, t.HasSymbol x
  | addRange s _ => t.HasScope s
  | setDetails x details => t.HasSymbol x ∧ t.Knows details
  | addAttr x _ => t.HasSymbol x
  | removeAttr x _ => t.HasSymbol x

instance (t : Tree) (o : Operation) : Decidable (o.Valid t) :=
  match o with
  | makeScope _ _ _ => inferInstanceAs (Decidable (_ ∧ _))
  | declare _ _ _ => inferInstanceAs (Decidable (_ ∧ _))
  | find s _ => inferInstanceAs (Decidable (t.HasScope s))
  | findSymbol s _ => inferInstanceAs (Decidable (t.HasScope s))
  | erase s _ => inferInstanceAs (Decidable (t.HasScope s))
  | setImport s _ => inferInstanceAs (Decidable (t.HasScope s))
  | addImportName s _ => inferInstanceAs (Decidable (t.HasScope s))
  | addSubmodule _ _ _ => inferInstanceAs (Decidable (_ ∧ _))
  | makeSpec s _ => inferInstanceAs (Decidable (t.HasScope s))
  | bindSpec _ _ => inferInstanceAs (Decidable (_ ∧ _))
  | addParam _ _ _ => inferInstanceAs (Decidable (_ ∧ _))
  | addRange s _ => inferInstanceAs (Decidable (t.HasScope s))
  | setDetails _ _ => inferInstanceAs (Decidable (_ ∧ _))
  | addAttr x _ => inferInstanceAs (Decidable (t.HasSymbol x))
  | removeAttr x _ => inferInstanceAs (Decidable (t.HasSymbol x))

/-- The tree after the operation. -/
def apply (t : Tree) : Operation → Tree
  | makeScope parent kind symbol => t.after (t.makeScope parent kind symbol)
  | declare s name details => t.after (t.declare s name details)
  | find s name => (t.find s name).2
  | findSymbol s name => (t.findSymbol s name).2
  | erase s name => (t.erase s name).2
  | setImport s policy => (t.setImport s policy).2
  | addImportName s name => t.after (t.addImportName s name)
  | addSubmodule s name submodule => (t.addSubmodule s name submodule).2
  | makeSpec s name => (t.makeSpec s name).2
  | bindSpec d s => t.after ((t.bindSpec d s).map fun u => ((), u))
  | addParam d name value => t.addParam d name value
  | addRange s span => t.addRange s span
  | setDetails x details => t.setDetails x details
  | addAttr x attr => t.addAttr x attr
  | removeAttr x attr => t.removeAttr x attr

end Tree.Operation

/-! ## Operations on sessions -/

namespace Session

/-- An operation on a session. -/
inductive Operation where
  | onTree (o : Tree.Operation)
  | say (d : Diagnostic)
  | analyze (s : ScopeId) (phrase : Phrase)
  | fold (e : Expr)
  | resolve

namespace Operation

/-- The operation is on identities that exist. -/
def Valid (r : Session) : Operation → Prop
  | onTree o => o.Valid r.context.tree
  | analyze s _ => r.context.tree.HasScope s
  | _ => True

instance (r : Session) (o : Operation) : Decidable (o.Valid r) :=
  match o with
  | onTree o => inferInstanceAs (Decidable (o.Valid r.context.tree))
  | say _ => inferInstanceAs (Decidable True)
  | analyze s _ => inferInstanceAs (Decidable (r.context.tree.HasScope s))
  | fold _ => inferInstanceAs (Decidable True)
  | resolve => inferInstanceAs (Decidable True)

/-- The session after the operation. -/
def apply (r : Session) : Operation → Session
  | onTree o => r.modifyTree o.apply
  | say d => { r with context := r.context.say d }
  | analyze s phrase => (r.analyze s phrase).2
  | fold e => (r.fold e).2
  | resolve => r.resolve.2

end Operation

/-- The session can be reached by valid operations. -/
inductive Reachable : Session → Prop
  | initial (config : Config) : Reachable (.initial config)
  | step {r : Session} (o : Operation) (hr : Reachable r) (ho : o.Valid r) : Reachable (o.apply r)

/-- Some operations, each valid where it is made. -/
def ValidRun : Session → List Operation → Prop
  | _, [] => True
  | r, o :: rest => o.Valid r ∧ ValidRun (o.apply r) rest

instance decidableValidRun : (r : Session) → (operations : List Operation) →
    Decidable (r.ValidRun operations)
  | _, [] => inferInstanceAs (Decidable True)
  | r, o :: rest =>
    have := decidableValidRun (o.apply r) rest
    inferInstanceAs (Decidable (_ ∧ _))

/-- The session after some operations. -/
def run (r : Session) (operations : List Operation) : Session :=
  operations.foldl Operation.apply r

/-- A valid run from a reachable session ends in a reachable session. -/
theorem Reachable.run {r : Session} (hr : r.Reachable) {operations : List Operation}
    (h : r.ValidRun operations) :
  (r.run operations).Reachable
  := by
  induction operations generalizing r with
  | nil => apply hr
  | cons o rest ih => apply ih (hr.step o h.1) h.2

end Session

/-- The tree is that of a session that can be reached. -/
def Tree.Reachable (t : Tree) : Prop := ∃ r : Session, r.Reachable ∧ r.context.tree = t

end FortranScope
