import ParameterHints.Call.Binding
import ParameterHints.Declaration.Table

/-! # Hosts

A host knows what calls mean: which method a call invokes, what its parameters are and how its
arguments are bound to them. Hints need no more than that. A table of declarations makes a host,
which resolves a call to the one method of its name that is applicable.
-/

namespace ParameterHints

structure Host where
  /-- The method that the call at a place invokes. -/
  resolve? : Arena → NodeRef → Option MethodId
  method? : MethodId → Option Method
  class? : ClassId → Option ClassDecl
  /-- The parameters of the method that the call at a place resolves to. -/
  signature? : Arena → NodeRef → Option Signature
  /-- The arguments of the call at a place, bound to the parameters of a signature. -/
  bindings? : Signature → Arena → NodeRef → Option (List Binding)

namespace Method

/-- Whether a method is a candidate for a call whose owner is known or not. -/
def isOwnedBy (m : Method) (owner : Option ClassId) : Bool :=
  owner.isNone || m.containingClass == owner

/-- Whether the arguments of a call can be bound to the parameters of a method, each one fitting. -/
def isApplicable (m : Method) (a : Arena) (c : Call) : Bool :=
  (bindArguments m.parameters a c).any fun bindings => bindingsFit m.parameters bindings a

end Method

namespace Table

/-- The class that the qualifier of a call names, if it names one. Any other qualifier, such as a
    variable, says nothing. -/
def owner? (t : Table) (a : Arena) (c : Call) : Option ClassId := do
  let reference ← a.referenceAt? c.callee
  let qualifier ← reference.qualifier
  t.findClass? (← a.path? (some qualifier))

/-- Whether the method of an id is a candidate for a call and applicable to it. -/
def isCandidate (t : Table) (a : Arena) (c : Call) (owner : Option ClassId) (id : MethodId) :
    Bool :=
  (t.method? id).any fun m => m.isOwnedBy owner && m.isApplicable a c

/-- The methods that a call may mean, given the simple name of its callee. -/
def candidates (t : Table) (a : Arena) (c : Call) (name : String) : List MethodId :=
  (t.methodsNamed name).filter (t.isCandidate a c (t.owner? a c))

def resolve? (t : Table) (a : Arena) (r : NodeRef) : Option MethodId := do
  let c ← a.callAt? r
  let name ← a.referenceName? c.callee
  match t.candidates a c name with
  | [id] => some id
  | _ => none

/-- The parameters of the method that the call at a place means. -/
def signature? (t : Table) (a : Arena) (r : NodeRef) : Option Signature := do
  return (← t.method? (← t.resolve? a r)).parameters

def host (t : Table) : Host where
  resolve? := t.resolve?
  method? := t.method?
  class? := t.class?
  signature? := t.signature?
  bindings? := fun signature a r => (a.callAt? r).bind (bindArguments signature a)

end Table

end ParameterHints
