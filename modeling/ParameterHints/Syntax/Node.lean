/-! # Syntax nodes

A node is a small header: its kind, the bytes it covers, and the place of its data in the pool
that belongs to its kind. The data of the kinds that hold more than a text are declared here.
-/

namespace ParameterHints

/-- What a node stands for. -/
inductive NodeKind where
  | sourceFile
  | identifier
  | stringLiteral
  | numericLiteral
  /-- A name, with or without a qualifier before a dot. -/
  | reference
  /-- A callee with its arguments. -/
  | call
  /-- A label and a value inside an argument list. -/
  | namedArgument
  /-- Statements in braces. -/
  | closure
  deriving DecidableEq

namespace NodeKind

def all : List NodeKind :=
  [sourceFile, identifier, stringLiteral, numericLiteral, reference, call, namedArgument, closure]

def name : NodeKind → String
  | sourceFile => "SourceFile"
  | identifier => "Identifier"
  | stringLiteral => "StringLiteral"
  | numericLiteral => "NumericLiteral"
  | reference => "ReferenceExpression"
  | call => "MethodCall"
  | namedArgument => "NamedArgument"
  | closure => "ClosableBlock"

def ofName? (name : String) : Option NodeKind := all.find? (·.name == name)

end NodeKind

/-- A place where a node may be: its index, or nothing. The index need not be that of a node. -/
abbrev NodeRef := Option Nat

/-- The header of a node. -/
structure Node where
  kind : NodeKind
  /-- The offset of its first byte. -/
  start : Nat
  /-- The offset behind its last byte. -/
  stop : Nat
  /-- Its place in the pool of its kind, if it has data. -/
  data : Option Nat
  deriving DecidableEq

/-- The data of a reference. A bare name has no qualifier. -/
structure Reference where
  qualifier : NodeRef
  name : NodeRef
  deriving DecidableEq

structure Call where
  callee : NodeRef
  /-- The arguments in the parentheses, named ones included. -/
  arguments : List NodeRef
  /-- The closures behind the parentheses. -/
  closures : List NodeRef
  deriving DecidableEq

namespace Call

/-- Every argument in source order: those in the parentheses, then the closures behind them. -/
def allArguments (c : Call) : List NodeRef := c.arguments ++ c.closures

end Call

structure NamedArgument where
  label : NodeRef
  value : NodeRef
  deriving DecidableEq

end ParameterHints
