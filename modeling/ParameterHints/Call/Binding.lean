import ParameterHints.Declaration.Basic

/-! # Binding arguments to parameters

The named arguments of a call go together to its first parameter, which has to be a map. The other
arguments, and the closures behind the parentheses after them, go to the remaining parameters one
by one, and a last parameter with varargs takes all that are left. A call binds all of its
arguments or none.
-/

namespace ParameterHints

structure Binding where
  arguments : List NodeRef
  /-- Whether any number of arguments may be bound here: the map of named arguments, or
      varargs. -/
  aggregating : Bool
  deriving DecidableEq

namespace Binding

def single (argument : NodeRef) : Binding := ⟨[argument], false⟩

def multiple (arguments : List NodeRef) : Binding := ⟨arguments, true⟩

end Binding

namespace Call

def namedArguments (c : Call) (a : Arena) : List NodeRef := c.arguments.filter a.isNamedArgument

/-- The arguments of a call without a name, with the closures behind the parentheses last. -/
def positionalArguments (c : Call) (a : Arena) : List NodeRef :=
  (c.arguments.filter fun r => !a.isNamedArgument r) ++ c.closures

end Call

/-- Bind arguments one by one, and all that are left to a last parameter with varargs. -/
def bindPositional : List Parameter → List NodeRef → Option (List Binding)
  | [], [] => some []
  | [], _ :: _ => none
  | [last], arguments =>
      if last.varargs then some [.multiple arguments]
      else
        match arguments with
        | [argument] => some [.single argument]
        | _ => none
  | _ :: _ :: _, [] => none
  | _ :: second :: rest, argument :: arguments =>
      (bindPositional (second :: rest) arguments).map (.single argument :: ·)

/-- Bind the arguments of a call, a binding for each parameter. -/
def bindArguments (parameters : List Parameter) (a : Arena) (c : Call) : Option (List Binding) :=
  let positional := c.positionalArguments a
  match c.namedArguments a, parameters with
  | [], _ => bindPositional parameters positional
  | _ :: _, [] => none
  | named, first :: rest =>
      if first.type = .map then
        (bindPositional rest positional).map (.multiple named :: ·)
      else none

/-- Whether a parameter may be bound as it is: an argument is a named one, or of a fitting type. -/
def Parameter.admits (p : Parameter) (a : Arena) (b : Binding) : Bool :=
  b.arguments.all fun r => a.isNamedArgument r || p.type.accepts a r

/-- Whether every bound argument fits its parameter. -/
def bindingsFit (parameters : List Parameter) (bindings : List Binding) (a : Arena) : Bool :=
  (parameters.zip bindings).all fun (parameter, binding) => parameter.admits a binding

end ParameterHints
