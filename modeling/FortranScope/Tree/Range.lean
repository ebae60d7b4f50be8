import FortranScope.Tree.Host

/-!
# Source ranges

The range of a scope covers every span that was said to belong to it or to a scope inside
it.  `Tree.findScope` gives the innermost scope whose range contains a span.
-/

namespace FortranScope.Tree

/-- The range `range` grown to cover `span`. -/
def growRange (range : Option Span) (span : Span) : Span :=
  match range with
  | none => span
  | some r => r.cover span

/-- Says that `span` belongs to `s`, and so to every scope around it. -/
def addRange (t : Tree) (s : ScopeId) (span : Span) : Tree :=
  (t.hosts s).foldl (fun u r => u.modifyScope r fun q =>
    { q with range := some (growRange q.range span) }) t

/-- Whether the range of `s` is known and contains `span`. -/
def covers (t : Tree) (span : Span) (s : ScopeId) : Bool :=
  (t.scope s).range.any fun range => range.Contains span

/-- The scope that is reached from `s` by going to the first scope inside whose range contains
`span` for as long as there is one.  A scope is created before those inside it, so a child
that is not younger ends the descent. -/
def innermost (t : Tree) (span : Span) (s : ScopeId) : ScopeId :=
  match (t.scope s).children.find? (t.covers span) with
  | none => s
  | some c => if s.index < c.index ∧ c.index < t.scopes.size then innermost t span c else s
termination_by t.scopes.size - s.index

/-- The innermost scope at or inside `s` whose range contains `span`. -/
def findScope (t : Tree) (s : ScopeId) (span : Span) : Option ScopeId :=
  if t.covers span s then some (t.innermost span s) else none

end FortranScope.Tree
