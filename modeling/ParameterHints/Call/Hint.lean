import ParameterHints.Call.Host
import ParameterHints.Language

/-! # Parameter hints of a call

For a call `f(1, "x", "y")` of a method with the parameters `int a, String... b` the hints are `a`
before `1` and `...b` before `"x"`. A parameter without a name has no hint, and neither has a
binding that aggregates a named argument, which names itself.
-/

namespace ParameterHints

/-- A text to show in front of the byte at an offset. -/
structure ParameterHint where
  text : String
  offset : Nat
  deriving DecidableEq

/-- What a provider of hints for one dialect answers. -/
structure HintProvider where
  /-- The hints of the call at a place, in the order of its parameters. -/
  hints : Arena → NodeRef → List ParameterHint
  /-- The method that the call at a place invokes. -/
  methodInfo? : Arena → NodeRef → Option MethodInfo
  /-- Patterns of methods whose calls have no hints. It is a set: order and repetition do not
      matter. -/
  denylist : List String
  /-- The language whose configured denylist is merged with this one. -/
  dependency : Option Language

/-- Bindings by the name of their parameter, in the order in which the names first appeared. -/
abbrev NamedBindings := List (String × Binding)

namespace NamedBindings

/-- Bind a name. A name that is there already keeps its place and loses its old binding. -/
def insert (bindings : NamedBindings) (name : String) (b : Binding) : NamedBindings :=
  match bindings with
  | [] => [(name, b)]
  | (key, old) :: rest =>
      if key = name then (key, b) :: rest else (key, old) :: insert rest name b

/-- The bindings of the parameters that have a name. What is left over of the longer list does not
    count. -/
def ofSignature (signature : Signature) (bindings : List Binding) : NamedBindings :=
  (signature.zip bindings).foldl
    (fun named (parameter, b) =>
      match parameter.name with
      | some name => named.insert name b
      | none => named) []

end NamedBindings

namespace Binding

/-- Whether a binding aggregates a named argument. -/
def capturesNamed (b : Binding) (a : Arena) : Bool :=
  b.aggregating && b.arguments.any a.isNamedArgument

def hintText (b : Binding) (name : String) : String := if b.aggregating then "..." ++ name else name

/-- The hint for a parameter, in front of the first argument bound to it. -/
def hint? (b : Binding) (name : String) (a : Arena) : Option ParameterHint :=
  if b.capturesNamed a then none
  else do
    let first ← b.arguments.head?
    return ⟨b.hintText name, (← a.node? first).start⟩

end Binding

namespace Host

/-- The hints of the call at a place, if it can be analysed. -/
def callHints? (h : Host) (a : Arena) (r : NodeRef) : Option (List ParameterHint) := do
  let signature ← h.signature? a r
  let bindings ← h.bindings? signature a r
  return (NamedBindings.ofSignature signature bindings).filterMap fun (name, b) => b.hint? name a

/-- The hints at a place; there are none unless it is a call. -/
def hints (h : Host) (a : Arena) (r : NodeRef) : List ParameterHint :=
  if (a.node? r).any (·.kind == .call) then (h.callHints? a r).getD [] else []

/-- The method behind a method: a wrapper stands for its target, as far as that is known. -/
def identity (h : Host) (m : Method) : Method := (m.target?.bind h.method?).getD m

/-- A name behind its qualifier and a dot; without a qualifier the name stands alone. -/
def qualify (qualifier name : String) : String :=
  if qualifier.isEmpty then name else qualifier ++ "." ++ name

/-- The identity of a method whose class has a qualified name. -/
def infoOf? (h : Host) (m : Method) : Option MethodInfo := do
  let containing ← h.class? (← m.containingClass)
  return ⟨qualify (← containing.qualifiedName) m.name, m.parameters.map fun p => p.name.getD ""⟩

/-- The identity of the method that the call at a place invokes. -/
def methodInfo? (h : Host) (a : Arena) (r : NodeRef) : Option MethodInfo := do
  let _ ← a.callAt? r
  let m ← h.method? (← h.resolve? a r)
  h.infoOf? (h.identity m)

/-- The provider for Groovy over a host. The methods that the language adds to every object are
    denied, and the denylist of Java is merged. -/
def groovyProvider (h : Host) : HintProvider where
  hints := h.hints
  methodInfo? := h.methodInfo?
  denylist := ["org.codehaus.groovy.runtime.DefaultGroovyMethods.*"]
  dependency := some .java

end Host

end ParameterHints
