import FortranScope.Config
import FortranScope.Tree

/-!
# Contexts

A `Context` is everything that is known while a program is analysed: the configuration, the
tree of scopes, and the diagnostics so far.
-/

namespace FortranScope

/-- The configuration, the tree of scopes and the diagnostics of an analysis. -/
structure Context where
  config : Config
  tree : Tree
  log : Log
deriving DecidableEq, Inhabited

namespace Context

/-- The context with which an analysis begins. -/
def initial (config : Config) : Context := ⟨config, .initial, []⟩

/-- Reports `d`. -/
def say (c : Context) (d : Diagnostic) : Context := { c with log := c.log ++ [d] }

end Context

end FortranScope
