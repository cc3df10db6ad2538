import ParameterHints.Syntax.Arena
import ParameterHints.Text.Segments

/-! # Trees from expressions

A draft grows a source text and the nodes over it together: the text of an expression is written
before its node is added, so the span of a node is where its text went.
-/

namespace ParameterHints

mutual

/-- An expression to write. -/
inductive Expr where
  | identifier (name : String)
  /-- A string literal, written between double quotes. -/
  | string (value : String)
  | number (digits : String)
  /-- A dotted path, written as a chain of references. -/
  | path (dotted : String)
  /-- A value behind a label, as it stands in an argument list. -/
  | named (label : String) (value : Expr)
  /-- Statements in braces. -/
  | closure (body : List Item)
  /-- A call of a dotted path. -/
  | call (callee : String) (arguments : List Expr)
  /-- An expression with a closure behind it, which is attached to it if it is a call. -/
  | trailing (target : Expr) (body : List Item)
  /-- A node that is there already; nothing is written. -/
  | existing (place : NodeRef)

/-- A part of a body or of a source file. -/
inductive Item where
  /-- Text without a node. -/
  | text (text : String)
  /-- An expression that is not listed as a statement. -/
  | unlisted (e : Expr)
  | statement (e : Expr)

end

/-- A tree under construction. -/
structure Draft where
  arena : Arena
  source : String

namespace Draft

def empty : Draft := ⟨.empty, ""⟩

def offset (d : Draft) : Nat := d.source.utf8ByteSize

def write (d : Draft) (text : String) : Draft := { d with source := d.source ++ text }

/-- Add a node over text that is written already; its place comes with the draft. -/
def add (d : Draft) (node : NewNode) : NodeRef × Draft :=
  (d.arena.nextRef, { d with arena := d.arena.add node })

def identifier (d : Draft) (name : String) : NodeRef × Draft :=
  let written := d.write name
  written.add (.identifier name ⟨d.offset, written.offset⟩)

/-- Write a literal, which is shown as `shown` and means `value`. -/
def literal (d : Draft) (kind : LiteralKind) (shown value : String) : NodeRef × Draft :=
  let written := d.write shown
  written.add (.literal kind value ⟨d.offset, written.offset⟩)

/-- Write one name of a path, given the place of what comes before it. -/
def pathName (d : Draft) (qualifier : NodeRef) (name : String) : NodeRef × Draft :=
  let (nameRef, named) := d.identifier name
  named.add (.reference qualifier nameRef)

/-- Write the names of a path behind its first, each after a dot. -/
def pathNames (d : Draft) (qualifier : NodeRef) : List String → NodeRef × Draft
  | [] => (qualifier, d)
  | name :: rest =>
      let (reference, written) := (d.write ".").pathName qualifier name
      written.pathNames reference rest

/-- Write a dotted path as a chain of references; the answer is the last of them. -/
def path (d : Draft) (dotted : String) : NodeRef × Draft :=
  let (first, others) := Text.splitFirst '.' dotted.toList
  let (reference, written) := d.pathName none (String.ofList first)
  written.pathNames reference (others.map String.ofList)

mutual

/-- Write an expression. The place of a call with closures behind it is that of the call. -/
def expr (d : Draft) : Expr → NodeRef × Draft
  | .identifier name => d.identifier name
  | .string value => d.literal .string ("\"" ++ value ++ "\"") value
  | .number digits => d.literal .numeric digits digits
  | .path dotted => d.path dotted
  | .named label value =>
      let (labelRef, labelled) := d.identifier label
      let (valueRef, written) := (labelled.write ": ").expr value
      written.add (.namedArgument labelRef valueRef)
  | .closure body =>
      let (statements, written) := (d.write "\x7b ").items body
      let closed := written.write " \x7d"
      closed.add (.closure statements ⟨d.offset, closed.offset⟩)
  | .call callee arguments =>
      let (calleeRef, called) := d.path callee
      let (argumentRefs, written) := (called.write "(").arguments true arguments
      let closed := written.write ")"
      closed.add (.call calleeRef argumentRefs ⟨d.offset, closed.offset⟩)
  | .trailing target body =>
      let (targetRef, before) := d.expr target
      let opened := before.write " "
      let (statements, written) := (opened.write "\x7b ").items body
      let closed := written.write " \x7d"
      let (closure, built) := closed.add (.closure statements ⟨opened.offset, closed.offset⟩)
      (targetRef, { built with arena := (built.arena.attachClosure targetRef closure).2 })
  | .existing place => (place, d)

/-- Write arguments, with a comma before each but the first of the list. -/
def arguments (d : Draft) (first : Bool) : List Expr → List NodeRef × Draft
  | [] => ([], d)
  | argument :: rest =>
      let (place, written) := (if first then d else d.write ", ").expr argument
      let (places, finished) := written.arguments false rest
      (place :: places, finished)

/-- Write the items of a body; the places are those of its statements. -/
def items (d : Draft) : List Item → List NodeRef × Draft
  | [] => ([], d)
  | item :: rest =>
      let (place, written) := d.item item
      let (places, finished) := written.items rest
      (place ++ places, finished)

/-- Write one item; the list holds its place if it is a statement. -/
def item (d : Draft) : Item → List NodeRef × Draft
  | .text text => ([], d.write text)
  | .unlisted e => ([], (d.expr e).2)
  | .statement e =>
      let (place, written) := d.expr e
      ([place], written)

end

end Draft

structure SyntaxTree where
  arena : Arena
  root : NodeRef
  source : String

namespace SyntaxTree

def ofDraft (d : Draft) (statements : List NodeRef) : SyntaxTree :=
  let (root, finished) := d.add (.sourceFile statements ⟨0, d.offset⟩)
  ⟨finished.arena, root, finished.source⟩

def ofItems (items : List Item) : SyntaxTree :=
  let (statements, d) := Draft.empty.items items
  ofDraft d statements

end SyntaxTree

end ParameterHints
