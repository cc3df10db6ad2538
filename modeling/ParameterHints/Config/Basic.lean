/-! # Configuration

What a user can set: whether parameter hints are shown at all, and patterns of methods whose calls
have none.
-/

namespace ParameterHints

structure Config where
  /-- Whether parameter hints are shown. -/
  parameterHints : Bool
  /-- Patterns on top of those of the provider. -/
  extraDenylist : List String
  /-- Patterns for a language that a provider depends on, by the id of the language. The ids are in
      ascending order, each once. -/
  dependencyDenylists : List (String × List String)
  deriving DecidableEq

namespace Config

/-- Hints are shown and nothing is denied but what a provider denies itself. -/
def default : Config := ⟨true, [], []⟩

/-- The configured patterns for a dependency, if there is one. -/
def dependencyPatterns (c : Config) (id : Option String) : List String :=
  (id.bind fun key => List.lookup key c.dependencyDenylists).getD []

end Config

end ParameterHints
