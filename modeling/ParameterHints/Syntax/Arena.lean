import ParameterHints.Syntax.Node
import ParameterHints.Text.Span

/-! # Arenas

An arena owns the nodes of a tree and their data, one pool for each sort of data. Nodes are only
added at the end, so an index stays valid. An arena may also come from elsewhere, and then nothing
is promised: references may dangle and headers may point at data that is not there. Every question
therefore has an answer for every arena.
-/

namespace ParameterHints

/-- Nodes and the pools of their data. The two kinds of literal share a pool. -/
structure Arena where
  nodes : Array Node
  identifiers : Array String
  literals : Array String
  references : Array Reference
  calls : Array Call
  namedArguments : Array NamedArgument
  /-- The statements of each closure. -/
  closures : Array (List NodeRef)
  /-- The statements of each source file. -/
  sourceFiles : Array (List NodeRef)
  deriving DecidableEq

/-- A literal with its written value. -/
inductive LiteralKind where
  | string
  | numeric
  deriving DecidableEq

namespace LiteralKind

def nodeKind : LiteralKind → NodeKind
  | string => .stringLiteral
  | numeric => .numericLiteral

end LiteralKind

/-- The kind of literal that a kind of node is. -/
def NodeKind.literal? : NodeKind → Option LiteralKind
  | .stringLiteral => some .string
  | .numericLiteral => some .numeric
  | _ => none

/-- What a new node holds. References and named arguments take their span from their parts. -/
inductive NewNode where
  | identifier (text : String) (span : Span)
  /-- A literal; its text has no quotes. -/
  | literal (kind : LiteralKind) (text : String) (span : Span)
  | reference (qualifier name : NodeRef)
  /-- A call without closures behind its parentheses. -/
  | call (callee : NodeRef) (arguments : List NodeRef) (span : Span)
  | namedArgument (label value : NodeRef)
  | closure (statements : List NodeRef) (span : Span)
  | sourceFile (statements : List NodeRef) (span : Span)

namespace Arena

def empty : Arena := ⟨#[], #[], #[], #[], #[], #[], #[], #[]⟩

def size (a : Arena) : Nat := a.nodes.size

def node? (a : Arena) (r : NodeRef) : Option Node := r.bind (a.nodes[·]?)

/-! ## Construction -/

/-- The span of a reference runs from its qualifier, or else its name, to the end of its name. -/
def referenceSpan (a : Arena) (qualifier name : NodeRef) : Span :=
  let stop := ((a.node? name).map Node.stop).getD 0
  let first := (a.node? qualifier).or (a.node? name)
  ⟨(first.map Node.start).getD stop, stop⟩

/-- The span of a named argument runs from its label to the end of its value. -/
def namedArgumentSpan (a : Arena) (label value : NodeRef) : Span :=
  let start := ((a.node? label).map Node.start).getD 0
  ⟨start, ((a.node? value).map Node.stop).getD start⟩

/-- One more header, for data at a place of the pool of its kind. -/
def pushNode (a : Arena) (kind : NodeKind) (span : Span) (data : Nat) : Arena :=
  { a with nodes := a.nodes.push ⟨kind, span.start, span.stop, some data⟩ }

/-- The place of the node that is added next. -/
def nextRef (a : Arena) : NodeRef := some a.size

def add (a : Arena) : NewNode → Arena
  | .identifier text span =>
      { a with identifiers := a.identifiers.push text }.pushNode .identifier span a.identifiers.size
  | .literal kind text span =>
      { a with literals := a.literals.push text }.pushNode kind.nodeKind span a.literals.size
  | .reference qualifier name =>
      { a with references := a.references.push ⟨qualifier, name⟩ }.pushNode .reference
        (a.referenceSpan qualifier name) a.references.size
  | .call callee arguments span =>
      { a with calls := a.calls.push ⟨callee, arguments, []⟩ }.pushNode .call span a.calls.size
  | .namedArgument label value =>
      { a with namedArguments := a.namedArguments.push ⟨label, value⟩ }.pushNode .namedArgument
        (a.namedArgumentSpan label value) a.namedArguments.size
  | .closure statements span =>
      { a with closures := a.closures.push statements }.pushNode .closure span a.closures.size
  | .sourceFile statements span =>
      { a with sourceFiles := a.sourceFiles.push statements }.pushNode .sourceFile span
        a.sourceFiles.size

/-- Widen the node at an index so that it ends no earlier than `stop`. -/
def widen (a : Arena) (index stop : Nat) : Arena :=
  { a with nodes := a.nodes.modify index fun n => { n with stop := max n.stop stop } }

def appendClosure (a : Arena) (data : Nat) (closure : NodeRef) : Arena :=
  { a with calls := a.calls.modify data fun c => { c with closures := c.closures ++ [closure] } }

/-- Attach a closure to a call, which is widened to cover it. The answer says whether it was
    attached: the closure has to be a node, and the call a call with data. A call whose data is
    missing from the pool is widened all the same. -/
def attachClosure (a : Arena) (call closure : NodeRef) : Bool × Arena :=
  match a.node? closure, call, a.node? call with
  | some closureNode, some index, some ⟨.call, _, _, some data⟩ =>
      let widened := a.widen index closureNode.stop
      if data < a.calls.size then (true, widened.appendClosure data closure) else (false, widened)
  | _, _, _ => (false, a)

@[simp] theorem size_add (a : Arena) (n : NewNode) : (a.add n).size = a.size + 1 := by
  cases n <;> simp [add, pushNode, size]

theorem node?_add (a : Arena) (n : NewNode) {i : Nat} (h : i < a.size) :
    (a.add n).node? (some i) = a.node? (some i) := by
  have inside : i < a.nodes.size := h
  cases n <;> simp [add, pushNode, node?, Array.getElem?_push, Nat.ne_of_lt inside]

@[simp] theorem size_attachClosure (a : Arena) (call closure : NodeRef) :
    (a.attachClosure call closure).2.size = a.size := by
  unfold attachClosure
  split
  · split <;> simp [widen, appendClosure, size]
  · rfl

/-! ## The data of a node -/

def identifier? (a : Arena) : Node → Option String
  | ⟨.identifier, _, _, some data⟩ => a.identifiers[data]?
  | _ => none

/-- The text of a literal, without quotes. -/
def literal? (a : Arena) : Node → Option String
  | ⟨.stringLiteral, _, _, some data⟩ | ⟨.numericLiteral, _, _, some data⟩ => a.literals[data]?
  | _ => none

def reference? (a : Arena) : Node → Option Reference
  | ⟨.reference, _, _, some data⟩ => a.references[data]?
  | _ => none

def call? (a : Arena) : Node → Option Call
  | ⟨.call, _, _, some data⟩ => a.calls[data]?
  | _ => none

def namedArgument? (a : Arena) : Node → Option NamedArgument
  | ⟨.namedArgument, _, _, some data⟩ => a.namedArguments[data]?
  | _ => none

def closure? (a : Arena) : Node → Option (List NodeRef)
  | ⟨.closure, _, _, some data⟩ => a.closures[data]?
  | _ => none

def sourceFile? (a : Arena) : Node → Option (List NodeRef)
  | ⟨.sourceFile, _, _, some data⟩ => a.sourceFiles[data]?
  | _ => none

/-! ## Questions about a place -/

def callAt? (a : Arena) (r : NodeRef) : Option Call := (a.node? r).bind a.call?

def identifierAt? (a : Arena) (r : NodeRef) : Option String := (a.node? r).bind a.identifier?

def referenceAt? (a : Arena) (r : NodeRef) : Option Reference := (a.node? r).bind a.reference?

/-- Whether a named argument is at a place, with or without its data. -/
def isNamedArgument (a : Arena) (r : NodeRef) : Bool :=
  (a.node? r).any (·.kind == .namedArgument)

def referenceName? (a : Arena) (r : NodeRef) : Option String := do
  a.identifierAt? (← a.referenceAt? r).name

/-- The dotted path at a place, for chains of at most `depth` nodes. -/
def pathWithin (a : Arena) : Nat → NodeRef → Option String
  | 0, _ => none
  | depth + 1, r =>
      (a.identifierAt? r).or do
        let reference ← a.referenceAt? r
        let name ← a.identifierAt? reference.name
        match reference.qualifier with
        | none => return name
        | some qualifier => return (← a.pathWithin depth (some qualifier)) ++ "." ++ name

/-- The dotted path of the identifier or chain of references at a place. A chain without a cycle
    is no longer than the arena. -/
def path? (a : Arena) (r : NodeRef) : Option String := a.pathWithin a.size r

def childrenOf (a : Arena) (n : Node) : List NodeRef :=
  match n.kind with
  | .sourceFile => (a.sourceFile? n).getD []
  | .reference =>
      match a.reference? n with
      | some reference => [reference.qualifier, reference.name].filter Option.isSome
      | none => []
  | .call =>
      match a.call? n with
      | some call => call.callee :: call.allArguments
      | none => []
  | .namedArgument =>
      match a.namedArgument? n with
      | some argument => [argument.label, argument.value]
      | none => []
  | .closure => (a.closure? n).getD []
  | .identifier | .stringLiteral | .numericLiteral => []

def children (a : Arena) (r : NodeRef) : List NodeRef :=
  match a.node? r with
  | some n => a.childrenOf n
  | none => []

/-- The places reached from `r` by going down at most `depth` nodes, each before its children, as
    long as the nodes on the way pass `enter`. -/
def walkWithin (a : Arena) (enter : Node → Bool) : Nat → NodeRef → List NodeRef
  | 0, _ => []
  | depth + 1, r =>
      match a.node? r with
      | some n => if enter n then r :: (a.childrenOf n).flatMap (a.walkWithin enter depth) else []
      | none => []

/-- The places below `r`, itself included, each before its children. A node that does not pass
    `enter` is left out with all that is below it. No path without a cycle is longer than the
    arena. -/
def walk (a : Arena) (enter : Node → Bool) (r : NodeRef) : List NodeRef :=
  a.walkWithin enter a.size r

end Arena

end ParameterHints
