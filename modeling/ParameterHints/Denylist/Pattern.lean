import ParameterHints.Declaration.Basic
import ParameterHints.Glob.Basic
import ParameterHints.Text.Blank
import ParameterHints.Text.Segments

/-! # Denylist patterns

A pattern is a glob for the full name of a method. A list in parentheses behind it asks for the
number of parameters and for the name of each, a star standing for any name:

    java.lang.Math.*
    *.println(*)
    *.setValue(value)
-/

namespace ParameterHints

/-- What is wrong with a denylist pattern. The pattern is quoted without the blanks around it. -/
inductive PatternError where
  /-- There is no name to match. -/
  | noName
  /-- The parameter list is not closed at the end of the pattern, or has a parenthesis inside. -/
  | unbalanced (pattern : List Char)
  /-- The name is not a glob. -/
  | badGlob (pattern name : List Char) (fault : Glob.Fault)
  deriving DecidableEq

namespace PatternError

def message : PatternError → String
  | noName => "empty denylist pattern"
  | unbalanced pattern =>
      s!"unbalanced parameter list in denylist pattern '{String.ofList pattern}'"
  | badGlob pattern name fault =>
      s!"invalid denylist pattern '{String.ofList pattern}': " ++
        s!"error parsing glob '{String.ofList name}': {fault.message}"

end PatternError

structure MethodPattern where
  /-- The pattern as written, without the blanks around it. -/
  pattern : List Char
  name : Glob
  /-- The entries of the parameter list, when there is one. -/
  parameters? : Option (List (List Char))

namespace MethodPattern

def isParenthesis (c : Char) : Bool := c == '(' || c == ')'

/-- The entries of a parameter list, given what stands between its parentheses. Blank entries do
    not count. -/
def entries (inner : List Char) : List (List Char) :=
  ((Text.segments ',' inner).map Text.trim).filter (!·.isEmpty)

/-- The name and the parameter list of a trimmed pattern. The list begins at the first opening
    parenthesis and has to end with the pattern. -/
def split (pattern : List Char) :
    Except PatternError (List Char × Option (List (List Char))) :=
  match pattern.dropWhile (· != '(') with
  | [] => .ok (pattern, none)
  | _ :: list =>
      let inner := list.dropLast
      if list.getLast? = some ')' ∧ !inner.any isParenthesis then
        .ok (Text.trim (pattern.takeWhile (· != '(')), some (entries inner))
      else .error (.unbalanced pattern)

def parse (text : List Char) : Except PatternError MethodPattern := do
  let pattern := Text.trim text
  let (name, parameters?) ← split pattern
  if name.isEmpty then throw .noName
  match Glob.parse name with
  | .ok glob => return ⟨pattern, glob, parameters?⟩
  | .error fault => throw (.badGlob pattern name fault)

/-- Whether an entry of a parameter list allows a parameter name. -/
def allows (entry name : List Char) : Bool := entry == ['*'] || entry == name

/-- Whether a parameter list allows parameter names, one entry for each. -/
def allowsAll : List (List Char) → List String → Bool
  | [], [] => true
  | entry :: entries, name :: names => allows entry name.toList && allowsAll entries names
  | _, _ => false

def isMatch (p : MethodPattern) (info : MethodInfo) : Bool :=
  p.name.isMatch info.fullName.toList &&
    match p.parameters? with
    | none => true
    | some entries => allowsAll entries info.parameterNames

end MethodPattern

end ParameterHints
