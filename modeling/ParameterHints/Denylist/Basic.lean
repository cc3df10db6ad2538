import ParameterHints.Denylist.Pattern

/-! # Denylists

A denylist holds compiled patterns, each written form once, in the order in which they first
appeared.
-/

namespace ParameterHints

/-- Compiled patterns; a method is denied when one of them matches it. -/
structure Denylist where
  patterns : List MethodPattern

namespace Denylist

/-- Compile patterns, given the trimmed forms of those that came before. A form seen before is
    left out; the first pattern that is wrong ends the compilation. -/
def compile (seen : List (List Char)) :
    List (List Char) → Except PatternError (List MethodPattern)
  | [] => .ok []
  | text :: rest =>
      let pattern := Text.trim text
      if pattern ∈ seen then compile seen rest
      else do
        let first ← MethodPattern.parse pattern
        return first :: (← compile (pattern :: seen) rest)

def ofPatterns (patterns : List String) : Except PatternError Denylist := do
  return ⟨← compile [] (patterns.map String.toList)⟩

def denies (d : Denylist) (info : MethodInfo) : Bool := d.patterns.any (·.isMatch info)

end Denylist

end ParameterHints
