/-! # Languages

Two dialects that share one runtime library. A provider of hints for one may name the other, whose
configured denylist is then merged with its own.
-/

namespace ParameterHints

inductive Language where
  | groovy
  | java
  deriving DecidableEq

namespace Language

/-- The identifier of a language, in lower case. -/
def id : Language → String
  | groovy => "groovy"
  | java => "java"

/-- The language of an identifier; case matters. -/
def ofId? (id : String) : Option Language :=
  if id = "groovy" then some groovy else if id = "java" then some java else none

end Language

end ParameterHints
