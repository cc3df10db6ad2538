import ParameterHints.Proofs.Syntax.Operations

/-! # The content of nodes

What a node holds, with no word on the pool that it is stored in. All questions about nodes are
answered from headers and contents, and the operations of an arena keep the contents of all nodes
but the call that a closure is attached to.
-/

namespace ParameterHints

/-- What a node holds besides its header. -/
inductive Content where
  | identifier (text : String)
  | literal (kind : LiteralKind) (text : String)
  | reference (data : Reference)
  | call (data : Call)
  | namedArgument (data : NamedArgument)
  | closure (statements : List NodeRef)
  | sourceFile (statements : List NodeRef)

namespace Content

def identifier? : Content → Option String
  | .identifier text => some text
  | _ => none

def literal? : Content → Option String
  | .literal _ text => some text
  | _ => none

def reference? : Content → Option Reference
  | .reference data => some data
  | _ => none

def call? : Content → Option Call
  | .call data => some data
  | _ => none

def namedArgument? : Content → Option NamedArgument
  | .namedArgument data => some data
  | _ => none

def closure? : Content → Option (List NodeRef)
  | .closure statements => some statements
  | _ => none

def sourceFile? : Content → Option (List NodeRef)
  | .sourceFile statements => some statements
  | _ => none

def children : Content → List NodeRef
  | .identifier _ | .literal .. => []
  | .reference data => [data.qualifier, data.name].filter Option.isSome
  | .call data => data.callee :: data.allArguments
  | .namedArgument data => [data.label, data.value]
  | .closure statements | .sourceFile statements => statements

end Content

/-- What a new node holds. -/
def NewNode.content : NewNode → Content
  | identifier text _ => .identifier text
  | literal kind text _ => .literal kind text
  | reference qualifier name => .reference ⟨qualifier, name⟩
  | call callee arguments _ => .call ⟨callee, arguments, []⟩
  | namedArgument label value => .namedArgument ⟨label, value⟩
  | closure statements _ => .closure statements
  | sourceFile statements _ => .sourceFile statements

namespace Arena

def content? (a : Arena) (n : Node) : Option Content :=
  match n.kind with
  | .identifier => (a.identifier? n).map .identifier
  | .stringLiteral => (a.literal? n).map (.literal .string)
  | .numericLiteral => (a.literal? n).map (.literal .numeric)
  | .reference => (a.reference? n).map .reference
  | .call => (a.call? n).map .call
  | .namedArgument => (a.namedArgument? n).map .namedArgument
  | .closure => (a.closure? n).map .closure
  | .sourceFile => (a.sourceFile? n).map .sourceFile

def contentAt? (a : Arena) (r : NodeRef) : Option Content := (a.node? r).bind a.content?

variable {a : Arena} {n : Node} {r : NodeRef}

theorem contentAt?_of_node (here : a.node? r = some n) : a.contentAt? r = a.content? n := by
  simp [contentAt?, here]

theorem content?_of_kind (h : n.kind = .call) : a.content? n = (a.call? n).map .call := by
  simp [content?, h]

/-! ## Questions -/

theorem identifier?_eq (a : Arena) (n : Node) :
    a.identifier? n = (a.content? n).bind Content.identifier? := by
  obtain ⟨kind, start, stop, data⟩ := n
  cases kind <;> simp [content?, identifier?, Option.bind_map, Function.comp_def,
    Content.identifier?]

theorem literal?_eq (a : Arena) (n : Node) :
    a.literal? n = (a.content? n).bind Content.literal? := by
  obtain ⟨kind, start, stop, data⟩ := n
  cases kind <;> simp [content?, literal?, Option.bind_map, Function.comp_def, Content.literal?]

theorem reference?_eq (a : Arena) (n : Node) :
    a.reference? n = (a.content? n).bind Content.reference? := by
  obtain ⟨kind, start, stop, data⟩ := n
  cases kind <;> simp [content?, reference?, Option.bind_map, Function.comp_def,
    Content.reference?]

theorem call?_eq (a : Arena) (n : Node) : a.call? n = (a.content? n).bind Content.call? := by
  obtain ⟨kind, start, stop, data⟩ := n
  cases kind <;> simp [content?, call?, Option.bind_map, Function.comp_def, Content.call?]

theorem namedArgument?_eq (a : Arena) (n : Node) :
    a.namedArgument? n = (a.content? n).bind Content.namedArgument? := by
  obtain ⟨kind, start, stop, data⟩ := n
  cases kind <;> simp [content?, namedArgument?, Option.bind_map, Function.comp_def,
    Content.namedArgument?]

theorem closure?_eq (a : Arena) (n : Node) :
    a.closure? n = (a.content? n).bind Content.closure? := by
  obtain ⟨kind, start, stop, data⟩ := n
  cases kind <;> simp [content?, closure?, Option.bind_map, Function.comp_def, Content.closure?]

theorem sourceFile?_eq (a : Arena) (n : Node) :
    a.sourceFile? n = (a.content? n).bind Content.sourceFile? := by
  obtain ⟨kind, start, stop, data⟩ := n
  cases kind <;> simp [content?, sourceFile?, Option.bind_map, Function.comp_def,
    Content.sourceFile?]

theorem identifierAt?_eq (a : Arena) (r : NodeRef) :
    a.identifierAt? r = (a.contentAt? r).bind Content.identifier? := by
  cases here : a.node? r <;> simp [identifierAt?, contentAt?, here, identifier?_eq]

theorem referenceAt?_eq (a : Arena) (r : NodeRef) :
    a.referenceAt? r = (a.contentAt? r).bind Content.reference? := by
  cases here : a.node? r <;> simp [referenceAt?, contentAt?, here, reference?_eq]

theorem callAt?_eq (a : Arena) (r : NodeRef) :
    a.callAt? r = (a.contentAt? r).bind Content.call? := by
  cases here : a.node? r <;> simp [callAt?, contentAt?, here, call?_eq]

theorem childrenOf_eq (a : Arena) (n : Node) :
    a.childrenOf n = ((a.content? n).map Content.children).getD [] := by
  obtain ⟨kind, start, stop, data⟩ := n
  cases kind with
  | identifier => cases found : a.identifier? ⟨.identifier, start, stop, data⟩ <;>
      simp [childrenOf, content?, found, Content.children]
  | stringLiteral => cases found : a.literal? ⟨.stringLiteral, start, stop, data⟩ <;>
      simp [childrenOf, content?, found, Content.children]
  | numericLiteral => cases found : a.literal? ⟨.numericLiteral, start, stop, data⟩ <;>
      simp [childrenOf, content?, found, Content.children]
  | reference => cases found : a.reference? ⟨.reference, start, stop, data⟩ <;>
      simp [childrenOf, content?, found, Content.children]
  | call => cases found : a.call? ⟨.call, start, stop, data⟩ <;>
      simp [childrenOf, content?, found, Content.children]
  | namedArgument => cases found : a.namedArgument? ⟨.namedArgument, start, stop, data⟩ <;>
      simp [childrenOf, content?, found, Content.children]
  | closure => cases found : a.closure? ⟨.closure, start, stop, data⟩ <;>
      simp [childrenOf, content?, found, Content.children]
  | sourceFile => cases found : a.sourceFile? ⟨.sourceFile, start, stop, data⟩ <;>
      simp [childrenOf, content?, found, Content.children]

theorem children_of_contentAt? {c : Content} (h : a.contentAt? r = some c) :
    a.children r = c.children := by
  obtain ⟨n, here, content⟩ := Option.bind_eq_some_iff.mp h
  simp [children_of_node here, childrenOf_eq, content]

/-! ## Operations -/

theorem content?_add (x : NewNode) (h : a.Stored n) : (a.add x).content? n = a.content? n := by
  obtain ⟨kind, start, stop, data⟩ := n
  obtain ⟨k, rfl, inside⟩ := h
  cases kind <;> simp only [poolSize] at inside <;> cases x <;>
    simp [content?, identifier?, literal?, reference?, call?, namedArgument?, closure?, sourceFile?,
      add, pushNode, Array.getElem?_push, Nat.ne_of_lt, inside]

/-- A header with a content points at an entry of the pool of its kind. -/
theorem stored_of_content? {c : Content} (h : a.content? n = some c) : a.Stored n := by
  obtain ⟨kind, start, stop, data⟩ := n
  cases data with
  | none => cases kind <;> cases h
  | some k =>
      refine ⟨k, rfl, ?_⟩
      cases kind <;>
      · obtain ⟨_, found, -⟩ := Option.map_eq_some_iff.mp h
        exact (Array.getElem?_eq_some_iff.mp found).1

/-- What is held in an arena is held there after more nodes. -/
theorem contentAt?_add_of_some {c : Content} (x : NewNode) (h : a.contentAt? r = some c) :
    (a.add x).contentAt? r = some c := by
  obtain ⟨n, here, held⟩ := Option.bind_eq_some_iff.mp h
  have now : (a.add x).node? r = some n := node?_add_of_node x here
  rw [contentAt?_of_node now, content?_add x (stored_of_content? held), held]

/-- A header without data has no content. -/
theorem content?_of_no_data (h : n.data = none) : a.content? n = none := by
  obtain ⟨kind, start, stop, data⟩ := n
  obtain rfl : data = none := h
  cases kind <;> rfl

theorem content?_newHeader (a : Arena) (x : NewNode) :
    (a.add x).content? (a.newHeader x) = some x.content := by
  cases x with
  | literal kind =>
      cases kind <;> simp [content?, newHeader, NewNode.kind, LiteralKind.nodeKind, poolSize, add,
        pushNode, literal?, NewNode.content]
  | _ =>
      simp [content?, newHeader, NewNode.kind, poolSize, add, pushNode, identifier?, reference?,
        call?, namedArgument?, closure?, sourceFile?, NewNode.content]

/-- Only the call whose data it is has another content. -/
theorem content?_appendClosure (a : Arena) (data : Nat) (closure : NodeRef) (n : Node)
    (h : n.kind = .call → n.data ≠ some data) :
    (a.appendClosure data closure).content? n = a.content? n := by
  obtain ⟨kind, start, stop, index⟩ := n
  cases kind with
  | call => simp only [content?, call?_appendClosure, if_neg (h rfl)]
  | _ => rfl

namespace WellFormed

variable {text : List Char} {index : Nat} {closure : NodeRef} {m k : Node}

theorem content?_attach_other (wf : a.WellFormed text) (h : Attachable a text index closure n m)
    (other : r ≠ some index) (found : a.node? r = some k) :
    (a.attachClosure (some index) closure).2.content? k = a.content? k := by
  have apart := wf.data_apart h other found
  obtain ⟨data, hd, -⟩ := wf.stored _ _ h.here
  rw [attachClosure_call h.there h.here h.call hd (wf.stored _ _ h.here)]
  rw [hd] at apart
  exact content?_appendClosure _ data closure k apart

/-- The call has one more closure. -/
theorem contentAt?_attach_self (wf : a.WellFormed text) (h : Attachable a text index closure n m) :
    ∃ c, a.contentAt? (some index) = some (.call c) ∧
      (a.attachClosure (some index) closure).2.contentAt? (some index) =
        some (.call { c with closures := c.closures ++ [closure] }) := by
  obtain ⟨c, before, after⟩ := wf.call?_attach_self h m.stop
  have now := wf.node?_attach h (some index)
  rw [if_pos rfl] at now
  refine ⟨c, ?_, ?_⟩
  · rw [contentAt?_of_node h.here, content?_of_kind h.call, before, Option.map_some]
  · rw [contentAt?_of_node now, content?_of_kind (by exact h.call), after, Option.map_some]

end WellFormed

end Arena

end ParameterHints
