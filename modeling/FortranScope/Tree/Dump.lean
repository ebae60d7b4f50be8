import FortranScope.Tree

/-!
# Descriptions

`Tree.dump` describes a scope in a line for the scope and one for each of its symbols, in
the order of their names.
-/

namespace FortranScope.Tree

/-- How the type is declared. -/
def typeText (t : Tree) : DeclType → String
  | .intrinsic type => type.text
  | .typeDerived d => (t.spec d).text
  | .classDerived d => "CLASS(" ++ (t.spec d).name ++ ")"
  | .typeStar => "TYPE(*)"
  | .classStar => "CLASS(*)"

/-- The names of symbols with commas between them. -/
def nameList (t : Tree) (xs : List SymbolId) : String :=
  ",".intercalate (xs.map fun x => (t.symbol x).name)

/-- `label` and the names of symbols, or nothing if there are none. -/
def labelled (t : Tree) (label : String) (xs : List SymbolId) : String :=
  if xs.isEmpty then "" else label ++ t.nameList xs

/-- The initial value of a declaration. -/
def initText : Option Deferred → String
  | none => ""
  | some init => " init: " ++ init.text

/-- The dimensions of a declaration. -/
def shapeText (shape : List Dimension) : Except Defect String :=
  if shape.isEmpty then .ok ""
  else (shape.mapM Dimension.text).map fun texts =>
    " shape: (" ++ ",".intercalate texts ++ ")"

/-- What the details of a symbol say beyond its type. -/
def detailsText (t : Tree) : Details → Except Defect String
  | .object details => (shapeText details.shape).map (· ++ initText details.init)
  | .typeParam details => .ok (" " ++ details.role.text ++ initText details.init)
  | .subprogram details =>
    .ok ((if details.isInterface then " (interface)" else "")
      ++ t.labelled " args: " details.dummyArgs
      ++ t.labelled " result: " details.result.toList)
  | .derivedType paramNames =>
    .ok (if paramNames.isEmpty then "" else " params: " ++ ",".intercalate paramNames)
  | .procedure interface => .ok (t.labelled " interface: " interface.symbol?.toList)
  | .generic spec specifics => .ok (" " ++ spec.text ++ t.labelled " => " specifics)
  | _ => .ok ""

/-- The name, the attributes, the kind, the type and the details of a symbol. -/
def describe (t : Tree) (x : SymbolId) : Except Defect String :=
  let y := t.symbol x
  let attrs := String.join (y.attrTexts.map (", " ++ ·))
  let type :=
    match y.details.type? with
    | none => ""
    | some type => " type: " ++ t.typeText type
  (t.detailsText y.details).map fun details =>
    y.name ++ attrs ++ ": " ++ y.details.kindName ++ type ++ details

/-- The kind of `s`, the symbol that introduces it, and how many scopes it contains. -/
def heading (t : Tree) (s : ScopeId) : String :=
  (t.scope s).kind.text ++ " scope: "
    ++ String.join ((t.scope s).symbol.toList.map fun x => (t.symbol x).name ++ " ")
    ++ toString (t.scope s).children.length ++ " children\n"

/-- The description of `s` and of the symbols it declares. -/
def dump (t : Tree) (s : ScopeId) : Except Defect String :=
  let symbols := (t.scope s).table.sortedKeys.filterMap (t.local? s)
  (symbols.mapM t.describe).map fun lines =>
    t.heading s ++ String.join (lines.map fun line => "  " ++ line ++ "\n")

end FortranScope.Tree
