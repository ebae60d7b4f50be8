import FortranScope.Text.Case
import FortranScope.Tree

/-!
# Modules and derived types

Submodules are registered by name in the scope of their ancestor module, and derived type
specs are created in a scope, bound to the scope of their definition and given parameter
values.
-/

namespace FortranScope.Tree

/-! ## Modules -/

/-- Registers the scope `submodule` by `name` in `s`, unless the name is taken, and tells
whether it was registered. -/
def addSubmodule (t : Tree) (s : ScopeId) (name : String) (submodule : ScopeId) : Bool × Tree :=
  if (t.scope s).submodules.contains (Text.foldCase name) then (false, t)
  else
    (true, t.modifyScope s fun r =>
      { r with submodules := r.submodules.insert (Text.foldCase name) submodule })

/-- The submodule registered by `name` in `s`. -/
def findSubmodule (t : Tree) (s : ScopeId) (name : String) : Option ScopeId :=
  (t.scope s).submodules.get? (Text.foldCase name)

/-- Whether `s` is the scope of a module that is no submodule.  The symbol of a module scope
has to be a module. -/
def isModule (t : Tree) (s : ScopeId) : Except Defect Bool :=
  if (t.scope s).kind = .moduleUnit then
    match (t.scope s).symbol with
    | none => .error (.moduleSymbolMissing s.index)
    | some x =>
      match (t.symbol x).details with
      | .moduleUnit isSubmodule => .ok (!isSubmodule)
      | details => .error (.moduleDetails (t.symbol x).name details.kindName)
  else .ok false

/-! ## Derived type specs -/

/-- A new spec for the derived type `name`, used in `s`. -/
def makeSpec (t : Tree) (s : ScopeId) (name : String) : SpecId × Tree :=
  let id : SpecId := ⟨t.specs.size⟩
  let grown : Tree := { t with specs := t.specs.push ⟨Text.foldCase name, none, []⟩ }
  (id, grown.modifyScope s fun r => { r with specs := r.specs ++ [id] })

/-- Binds the spec `d` to the scope of the definition of its type, which is done once. -/
def bindSpec (t : Tree) (d : SpecId) (s : ScopeId) : Except Defect Tree :=
  if (t.spec d).scope.isSome then .error (.specScopeAlreadySet (t.spec d).name)
  else if (t.scope s).kind = .derivedType then
    .ok (t.modifySpec d fun e => { e with scope := some s })
  else .error .specScopeNotDerivedType

/-- Adds a parameter value, given by name or by position, to the spec `d`. -/
def addParam (t : Tree) (d : SpecId) (name : Option String) (value : Extent) : Tree :=
  t.modifySpec d fun e => { e with params := e.params ++ [(name.map Text.foldCase, value)] }

end FortranScope.Tree
