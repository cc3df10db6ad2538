import ParameterHints.Call.Hint
import ParameterHints.Config.Basic
import ParameterHints.Denylist.Basic

/-! # The denylist of a provider

The patterns of a provider come first, in ascending order, then those that the user configured for
the language it depends on, then the user's extra ones.
-/

namespace ParameterHints

/-- The patterns of a provider, in ascending order and each once. -/
def HintProvider.ownPatterns (p : HintProvider) : List String :=
  (p.denylist.mergeSort fun a b => decide (a ≤ b)).eraseDups

namespace Denylist

def ofProvider (p : HintProvider) (c : Config) : Except PatternError Denylist :=
  ofPatterns
    (p.ownPatterns ++ c.dependencyPatterns (p.dependency.map Language.id) ++ c.extraDenylist)

end Denylist

end ParameterHints
