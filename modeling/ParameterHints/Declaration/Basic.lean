import ParameterHints.Syntax.Arena

/-! # Declarations

Classes, methods and their parameters, as far as the selection among overloads needs them, and what
a denylist sees of a method.
-/

namespace ParameterHints

abbrev ClassId := Nat

abbrev MethodId := Nat

structure ClassDecl where
  /-- The simple name, empty for an anonymous class. -/
  name : String
  /-- The name with its packages; a local or anonymous class has none. -/
  qualifiedName : Option String
  deriving DecidableEq

/-- The declared type of a parameter. -/
inductive ParameterType where
  | object
  | int
  | string
  | boolean
  | map
  | closure
  /-- Any other class. -/
  | named (name : String)
  deriving DecidableEq

namespace ParameterType

/-- Whether a node of some kind can be passed. Only literals and closures say enough about
    themselves to be refused; any other expression may have any type. -/
def acceptsKind : ParameterType → NodeKind → Bool
  | object, _ | int, .numericLiteral | string, .stringLiteral | closure, .closure => true
  | _, .numericLiteral | _, .stringLiteral | _, .closure => false
  | _, _ => true

/-- Whether the argument at a place can be passed. A place without a node cannot. -/
def accepts (t : ParameterType) (a : Arena) (argument : NodeRef) : Bool :=
  (a.node? argument).any fun n => t.acceptsKind n.kind

end ParameterType

structure Parameter where
  /-- Its name, unless it is declared without one. -/
  name : Option String
  /-- Its type; that of one argument if it takes any number of them. -/
  type : ParameterType
  /-- Whether it takes any number of arguments. -/
  varargs : Bool
  deriving DecidableEq

/-- The parameters of the method that a call resolves to, in order. -/
abbrev Signature := List Parameter

/-- How a method came about. -/
inductive MethodKind where
  /-- It was declared. -/
  | regular
  /-- It wraps a static method, whose first parameter is the receiver. -/
  | wrapper (target : MethodId)
  deriving DecidableEq

structure Method where
  name : String
  containingClass : Option ClassId
  parameters : List Parameter
  kind : MethodKind
  deriving DecidableEq

namespace Method

def target? (m : Method) : Option MethodId :=
  match m.kind with
  | .regular => none
  | .wrapper target => some target

end Method

/-- What a denylist sees of a method: the qualified name of its class and its own name joined by a
    dot, and the names of its parameters, empty for those without one. -/
structure MethodInfo where
  fullName : String
  parameterNames : List String
  deriving DecidableEq

end ParameterHints
