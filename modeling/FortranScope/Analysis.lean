import FortranScope.Constant.Evaluation
import FortranScope.Context
import FortranScope.Phrase
import FortranScope.Tree.Host

/-!
# Analysis of phrases

The analysis of a phrase binds its names to symbols, gives its literals their kinds and
replaces named constants by their values.  It depends on a context but does not change it:
an `Analysis` holds the expression, if the phrase has one, together with the uses of
symbols and the faults that were found, both from left to right.  `Context.record` makes the
uses and the faults part of the context.
-/

namespace FortranScope

/-- A place where a symbol was found by name. -/
structure Use where
  symbol : SymbolId
  span : Span
deriving DecidableEq

/-- The outcome of the analysis of a part of the source.  There is a result exactly if no
fault was found. -/
structure Analysis (α : Type) where
  result : Option α
  uses : List Use
  faults : List Diagnostic

namespace Analysis

variable {α β γ : Type}

/-- The result `a` without uses and faults. -/
def pure (a : α) : Analysis α := ⟨some a, [], []⟩

/-- The fault `cause` at `position`, without a result. -/
def fault (cause : Cause) (position : Position) : Analysis α :=
  ⟨none, [], [.error cause position]⟩

/-- The outcome with its result changed by `f`. -/
def map (f : α → β) (a : Analysis α) : Analysis β := ⟨a.result.map f, a.uses, a.faults⟩

/-- The outcome of `a` and then of `b`, with their results joined by `f` if both have one. -/
def join (f : α → β → γ) (a : Analysis α) (b : Analysis β) : Analysis γ :=
  ⟨a.result.bind fun x => b.result.map (f x), a.uses ++ b.uses, a.faults ++ b.faults⟩

/-- The outcome after the uses `uses`. -/
def after (uses : List Use) (a : Analysis α) : Analysis α :=
  ⟨a.result, uses ++ a.uses, a.faults⟩

end Analysis

/-! ## Names -/

/-- The symbol that the name `text` denotes in `s`.  In the definition of a derived type the
parameters of the type come before the names of the scopes around it. -/
def Tree.denoted? (t : Tree) (s : ScopeId) (text : String) : Option SymbolId :=
  if (t.scope s).kind = .derivedType then
    match t.local? s text with
    | some x => some x
    | none => t.visible? s text
  else t.visible? s text

/-- The use of the symbol that `name` was found to denote, if it was found. -/
def useOf (name : Name) (symbol : Option SymbolId) : List Use :=
  symbol.toList.map fun x => ⟨x, name.span⟩

/-- What a designator stands for: the value of the symbol if it names a constant, and the
symbol otherwise. -/
def Tree.designated (t : Tree) (name : String) (x : SymbolId) : Expr :=
  match (t.symbol x).namedConstant? with
  | some c => .constant c
  | none => .designator name x

/-! ## Literals -/

/-- The kind that the digits of a suffix write, or the name in it denotes; the name has to be
that of an integer constant. -/
def Context.suffixValue? (c : Context) (suffix : String) (symbol : Option SymbolId) :
    Option Int :=
  if suffix.toList.all Char.isDigit then Integer.ofText? .kind suffix
  else
    (symbol.bind fun x => (c.tree.symbol x).namedConstant?.bind Constant.integer?).filter
      fun n => Integer.Fits .kind n

/-- The kind of the literal at `span` with the given suffix, or `standard` if it has none.  A
kind has to be positive. -/
def Context.analyzeKind (c : Context) (s : ScopeId) (standard : Int) (span : Span) :
    Option String → Analysis Int
  | none => .pure standard
  | some suffix =>
    let name := Name.ofSpelling suffix span
    let symbol :=
      if suffix.toList.all Char.isDigit then none else c.tree.denoted? s name.text
    match c.suffixValue? suffix symbol with
    | some kind =>
      if 0 < kind then (Analysis.pure kind).after (useOf name symbol)
      else (Analysis.fault (.invalidKindParameter suffix) span.first).after (useOf name symbol)
    | none =>
      (Analysis.fault (.invalidKindParameter suffix) span.first).after (useOf name symbol)

/-- The kind of real numbers whose exponent has the letter of double precision. -/
def doublePrecisionKind : Int := 8

/-- The kind of a real number that is written without one. -/
def Config.kindOfReal (config : Config) (digits : String) : Int :=
  if 'd' ∈ digits.toList ∨ 'D' ∈ digits.toList then doublePrecisionKind else config.realKind

/-! ## Phrases -/

mutual

/-- The analysis of a phrase in `s`.  Nothing inside a defined operation is looked at, nor are
the arguments of a reference whose name is neither known nor that of an intrinsic
function. -/
def Context.analysis (c : Context) (s : ScopeId) : Phrase → Analysis Expr
  | .integer value kind span =>
    (c.analyzeKind s c.config.integerKind span kind).map fun k => .constant (.integer value k)
  | .real digits kind span =>
    (c.analyzeKind s (c.config.kindOfReal digits) span kind).map fun k =>
      .constant (.real digits k)
  | .character value _ => .pure (.constant (.character value c.config.characterKind))
  | .logical value _ => .pure (.constant (.logical value c.config.logicalKind))
  | .designator name =>
    match c.tree.denoted? s name.text with
    | some x => (Analysis.pure (c.tree.designated name.text x)).after (useOf name (some x))
    | none => .fault (.undeclaredName name.text) name.span.first
  | .component base name => (c.analysis s base).map fun b => .component b name.text
  | .reference callee args _ =>
    let symbol := c.tree.denoted? s callee.text
    if symbol.isNone && (Intrinsic.ofName? callee.text).isNone then
      .fault (.undeclaredName callee.text) callee.span.first
    else
      ((c.analysisOfArgs s args).map fun a => .reference callee.text symbol a).after
        (useOf callee symbol)
  | .parentheses inner _ => (c.analysis s inner).map .parentheses
  | .unary (.intrinsic operator) operand _ => (c.analysis s operand).map (.unary operator)
  | .unary (.defined word) _ span =>
    .fault (.unsupportedExpression ("defined operator " ++ word)) span.first
  | .binary (.intrinsic operator) left right =>
    (c.analysis s left).join (.binary operator) (c.analysis s right)
  | .binary (.defined word) left _ =>
    .fault (.unsupportedExpression ("defined operator " ++ word)) left.span.first

/-- The analysis of all arguments of a reference in `s`. -/
def Context.analysisOfArgs (c : Context) (s : ScopeId) : Phrase.ArgList → Analysis Expr.Args
  | .nil => .pure .nil
  | .cons keyword value rest =>
    (c.analysis s value).join (.cons (keyword.map Name.text)) (c.analysisOfArgs s rest)

end

/-! ## Effects -/

/-- Notes the uses of an analysis with their symbols and reports its faults. -/
def Context.record {α : Type} (c : Context) (a : Analysis α) : Context :=
  { c with
    tree := a.uses.foldl (fun t u => t.addOccurrence u.symbol .used u.span) c.tree
    log := c.log ++ a.faults }

end FortranScope
