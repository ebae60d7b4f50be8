import FortranScope.Analysis
import FortranScope.Expr.Fold

/-!
# Sessions

A `Session` is an analysis in progress: the context, and where the phrase analysed last
begins, which is where the warnings of folding point.
-/

namespace FortranScope

/-- A context and the beginning of the phrase analysed last. -/
structure Session where
  context : Context
  position : Position
deriving DecidableEq, Inhabited

namespace Session

/-- The session with which an analysis begins.  No phrase was analysed yet. -/
def initial (config : Config) : Session := ⟨.initial config, .null⟩

/-- `r` with its tree changed by `f`. -/
def modifyTree (r : Session) (f : Tree → Tree) : Session :=
  { r with context := { r.context with tree := f r.context.tree } }

/-- Analyses a phrase in `s`; there is no expression if a fault was reported. -/
def analyze (r : Session) (s : ScopeId) (phrase : Phrase) : Option Expr × Session :=
  let a := r.context.analysis s phrase
  (a.result, ⟨r.context.record a, phrase.span.first⟩)

/-- Folds an expression and reports the operations that give no value as warnings. -/
def fold (r : Session) (e : Expr) : Expr × Session :=
  let folded := e.fold r.context.config
  let warnings := folded.2.map fun cause => Diagnostic.warning cause r.position
  (folded.1, { r with context := { r.context with log := r.context.log ++ warnings } })

/-- Analyses and folds a deferred expression in `s`, if that was not done before. -/
def settle (r : Session) (s : ScopeId) : Deferred → Deferred × Session
  | .empty => (.failed, r)
  | .failed => (.failed, r)
  | .resolved e => (.resolved e, r)
  | .pending phrase =>
    match r.analyze s phrase with
    | (none, next) => (.failed, next)
    | (some e, next) =>
      let folded := next.fold e
      (.resolved folded.1, folded.2)

/-- Analyses and folds the expression of an extent in `s`, if it has one. -/
def settleExtent (r : Session) (s : ScopeId) : Extent → Extent × Session
  | .assumed => (.assumed, r)
  | .colon => (.colon, r)
  | .explicit value =>
    let settled := r.settle s value
    (.explicit settled.1, settled.2)

/-- Analyses and folds the value of a type parameter in `s`, which has to be an expression. -/
def settleParam (r : Session) (s : ScopeId) : Extent → Except Defect (Extent × Session)
  | .explicit value => .ok (r.settleExtent s (.explicit value))
  | _ => .error .valueNotExplicit

end Session

end FortranScope
