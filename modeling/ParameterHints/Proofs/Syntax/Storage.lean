import ParameterHints.Proofs.Syntax.Walk

/-! # What the operations of an arena store

Adding a node puts one header and one entry of a pool at their ends, and attaching a closure
changes one header and one entry. As long as every header points into the pool of its kind, neither
has an effect on the data of other nodes.
-/

namespace ParameterHints

namespace NewNode

/-- The kind of a new node. -/
def kind : NewNode → NodeKind
  | identifier .. => .identifier
  | literal kind .. => kind.nodeKind
  | reference .. => .reference
  | call .. => .call
  | namedArgument .. => .namedArgument
  | closure .. => .closure
  | sourceFile .. => .sourceFile

/-- The children of a new node. -/
def children : NewNode → List NodeRef
  | identifier .. | literal .. => []
  | reference qualifier name => [qualifier, name].filter Option.isSome
  | call callee arguments _ => callee :: arguments
  | namedArgument label value => [label, value]
  | closure statements _ | sourceFile statements _ => statements

end NewNode

namespace Arena

/-- The number of entries in the pool for a kind. -/
def poolSize (a : Arena) : NodeKind → Nat
  | .sourceFile => a.sourceFiles.size
  | .identifier => a.identifiers.size
  | .stringLiteral | .numericLiteral => a.literals.size
  | .reference => a.references.size
  | .call => a.calls.size
  | .namedArgument => a.namedArguments.size
  | .closure => a.closures.size

/-- The span of a new node: its own, or that of its parts. -/
def spanOf (a : Arena) : NewNode → Span
  | .identifier _ span | .literal _ _ span | .call _ _ span | .closure _ span
  | .sourceFile _ span => span
  | .reference qualifier name => a.referenceSpan qualifier name
  | .namedArgument label value => a.namedArgumentSpan label value

theorem spanOf_bare {a : Arena} {name : NodeRef} {n : Node} (hn : a.node? name = some n) :
    a.spanOf (.reference none name) = ⟨n.start, n.stop⟩ := by
  simp [spanOf, referenceSpan, hn, node?_none]

theorem spanOf_qualified {a : Arena} {qualifier name : NodeRef} {n m : Node}
    (hn : a.node? qualifier = some n) (hm : a.node? name = some m) :
    a.spanOf (.reference qualifier name) = ⟨n.start, m.stop⟩ := by
  simp [spanOf, referenceSpan, hn, hm]

theorem spanOf_namedArgument {a : Arena} {label value : NodeRef} {n m : Node}
    (hn : a.node? label = some n) (hm : a.node? value = some m) :
    a.spanOf (.namedArgument label value) = ⟨n.start, m.stop⟩ := by
  simp [spanOf, namedArgumentSpan, hn, hm]

/-- The header points at an entry of the pool of its kind. -/
def Stored (a : Arena) (n : Node) : Prop := ∃ k, n.data = some k ∧ k < a.poolSize n.kind

theorem kind_of_call? {a : Arena} {n : Node} {c : Call} (h : a.call? n = some c) :
    n.kind = .call := by
  obtain ⟨kind, _, _, _⟩ := n
  cases kind with
  | call => rfl
  | _ => simp [call?] at h

theorem isCall_of_callAt? {a : Arena} {r : NodeRef} {c : Call} (h : a.callAt? r = some c) :
    (a.node? r).any (·.kind == .call) = true := by
  obtain ⟨n, here, data⟩ := Option.bind_eq_some_iff.mp h
  simp [here, kind_of_call? data]

/-- The children of a call are its parts. -/
theorem childrenOf_of_call? {a : Arena} {n : Node} {c : Call} (h : a.call? n = some c) :
    a.childrenOf n = c.callee :: c.allArguments := by
  have kind := kind_of_call? h
  obtain ⟨_, start, stop, data⟩ := n
  subst kind
  simp only [childrenOf, h]

/-! ## Adding a node -/

/-- The header of the node that is added. -/
def newHeader (a : Arena) (x : NewNode) : Node :=
  ⟨x.kind, (a.spanOf x).start, (a.spanOf x).stop, some (a.poolSize x.kind)⟩

theorem nodes_add (a : Arena) (x : NewNode) : (a.add x).nodes = a.nodes.push (a.newHeader x) := by
  cases x with
  | literal kind => cases kind <;> rfl
  | _ => rfl

theorem node?_nextRef_add (a : Arena) (x : NewNode) :
    (a.add x).node? a.nextRef = some (a.newHeader x) := by
  simp [node?, nextRef, nodes_add, size]

theorem node?_nextRef (a : Arena) : a.node? a.nextRef = none := by
  simp [node?, nextRef, size]

/-- A place holds after an addition what it held before, or it is the new one. -/
theorem node?_add_cases {a : Arena} {x : NewNode} {r : NodeRef} {n : Node}
    (h : (a.add x).node? r = some n) :
    a.node? r = some n ∨ r = a.nextRef ∧ n = a.newHeader x := by
  obtain ⟨i, rfl, inside⟩ := index_lt_size h
  rw [size_add] at inside
  rcases Nat.lt_succ_iff_lt_or_eq.mp inside with old | rfl
  · exact .inl (by rwa [node?_add a x old] at h)
  · refine .inr ⟨rfl, ?_⟩
    have new := node?_nextRef_add a x
    rw [nextRef, h] at new
    exact Option.some.inj new

theorem node?_add_of_node {a : Arena} (x : NewNode) {r : NodeRef} {n : Node}
    (h : a.node? r = some n) : (a.add x).node? r = some n := by
  obtain ⟨i, rfl, inside⟩ := index_lt_size h
  rw [node?_add a x inside, h]

theorem poolSize_le_add (a : Arena) (x : NewNode) (kind : NodeKind) :
    a.poolSize kind ≤ (a.add x).poolSize kind := by
  cases x <;> cases kind <;> simp [poolSize, add, pushNode]

theorem poolSize_lt_add (a : Arena) (x : NewNode) :
    a.poolSize x.kind < (a.add x).poolSize x.kind := by
  cases x with
  | literal kind =>
      cases kind <;> simp [poolSize, NewNode.kind, LiteralKind.nodeKind, add, pushNode]
  | _ => simp [poolSize, NewNode.kind, add, pushNode]

theorem poolSize_add_le (a : Arena) (x : NewNode) (kind : NodeKind) :
    (a.add x).poolSize kind ≤ a.poolSize kind + 1 := by
  cases x <;> cases kind <;> simp [poolSize, add, pushNode]

theorem stored_add {a : Arena} (x : NewNode) {n : Node} (h : a.Stored n) : (a.add x).Stored n := by
  obtain ⟨k, data, inside⟩ := h
  exact ⟨k, data, Nat.lt_of_lt_of_le inside (poolSize_le_add a x n.kind)⟩

theorem stored_newHeader (a : Arena) (x : NewNode) : (a.add x).Stored (a.newHeader x) :=
  ⟨_, rfl, poolSize_lt_add a x⟩

/-- The data of a stored call stays what it is. -/
theorem call?_add {a : Arena} (x : NewNode) {n : Node} (h : a.Stored n) :
    (a.add x).call? n = a.call? n := by
  obtain ⟨kind, start, stop, data⟩ := n
  obtain ⟨k, rfl, inside⟩ := h
  cases kind with
  | call =>
      have inside : k < a.calls.size := inside
      cases x <;> simp [call?, add, pushNode, Array.getElem?_push, Nat.ne_of_lt inside]
  | _ => rfl

/-- The children of a stored node stay what they are. -/
theorem childrenOf_add {a : Arena} (x : NewNode) {n : Node} (h : a.Stored n) :
    (a.add x).childrenOf n = a.childrenOf n := by
  have sameCall := call?_add x h
  obtain ⟨kind, start, stop, data⟩ := n
  obtain ⟨k, rfl, inside⟩ := h
  cases kind with
  | call => simp only [childrenOf, sameCall]
  | identifier | stringLiteral | numericLiteral => rfl
  | sourceFile =>
      have inside : k < a.sourceFiles.size := inside
      cases x <;>
        simp [childrenOf, sourceFile?, add, pushNode, Array.getElem?_push, Nat.ne_of_lt inside]
  | reference =>
      have inside : k < a.references.size := inside
      cases x <;>
        simp [childrenOf, reference?, add, pushNode, Array.getElem?_push, Nat.ne_of_lt inside]
  | namedArgument =>
      have inside : k < a.namedArguments.size := inside
      cases x <;>
        simp [childrenOf, namedArgument?, add, pushNode, Array.getElem?_push, Nat.ne_of_lt inside]
  | closure =>
      have inside : k < a.closures.size := inside
      cases x <;>
        simp [childrenOf, closure?, add, pushNode, Array.getElem?_push, Nat.ne_of_lt inside]

theorem childrenOf_newHeader (a : Arena) (x : NewNode) :
    (a.add x).childrenOf (a.newHeader x) = x.children := by
  cases x with
  | literal kind => cases kind <;> rfl
  | _ =>
      simp [childrenOf, newHeader, NewNode.kind, NewNode.children, poolSize, add, pushNode,
        reference?, call?, namedArgument?, closure?, sourceFile?, Call.allArguments]

/-- The data of a new call. -/
theorem call?_newHeader (a : Arena) (callee : NodeRef) (arguments : List NodeRef) (span : Span) :
    (a.add (.call callee arguments span)).call? (a.newHeader (.call callee arguments span)) =
      some ⟨callee, arguments, []⟩ := by
  simp [call?, newHeader, NewNode.kind, poolSize, add, pushNode]

/-! ## Attaching a closure -/

theorem node?_widen (a : Arena) (index stop : Nat) (r : NodeRef) :
    (a.widen index stop).node? r =
      if r = some index then (a.node? r).map fun n => { n with stop := max n.stop stop }
      else a.node? r := by
  cases r with
  | none => rfl
  | some i =>
      by_cases same : i = index
      · subst same
        simp [widen, node?, Array.getElem?_modify]
      · simp [widen, node?, Array.getElem?_modify, same, Ne.symm same]

theorem call?_appendClosure (a : Arena) (data : Nat) (closure : NodeRef) (n : Node) :
    (a.appendClosure data closure).call? n =
      if n.data = some data then
        (a.call? n).map fun c => { c with closures := c.closures ++ [closure] }
      else a.call? n := by
  obtain ⟨kind, start, stop, index⟩ := n
  cases kind with
  | call =>
      cases index with
      | none => simp [call?]
      | some k =>
          by_cases same : k = data
          · subst same
            simp [call?, appendClosure, Array.getElem?_modify]
          · simp [call?, appendClosure, Array.getElem?_modify, same, Ne.symm same]
  | _ => simp [call?]

/-- Only the children of the call whose data it is have changed. -/
theorem childrenOf_appendClosure (a : Arena) (data : Nat) (closure : NodeRef) (n : Node)
    (h : n.kind = .call → n.data ≠ some data) :
    (a.appendClosure data closure).childrenOf n = a.childrenOf n := by
  obtain ⟨kind, start, stop, index⟩ := n
  cases kind with
  | call => simp only [childrenOf, call?_appendClosure, if_neg (h rfl)]
  | _ => rfl

/-- A closure is attached to a call by widening its header and adding to its data. -/
theorem attachClosure_call {a : Arena} {closure : NodeRef} {index data : Nat} {m n : Node}
    (hm : a.node? closure = some m) (hn : a.node? (some index) = some n) (kind : n.kind = .call)
    (hd : n.data = some data) (stored : a.Stored n) :
    (a.attachClosure (some index) closure).2 =
      (a.widen index m.stop).appendClosure data closure := by
  obtain ⟨_, start, stop, _⟩ := n
  subst kind hd
  obtain ⟨k, same, inside⟩ := stored
  cases same
  have inside : data < a.calls.size := inside
  simp [attachClosure, hm, hn, inside]

@[simp] theorem poolSize_attachClosure (a : Arena) (call closure : NodeRef) (kind : NodeKind) :
    (a.attachClosure call closure).2.poolSize kind = a.poolSize kind := by
  unfold attachClosure
  split
  · split <;> cases kind <;> simp [poolSize, widen, appendClosure]
  · rfl

@[simp] theorem kind_attachClosure (a : Arena) (call closure r : NodeRef) :
    ((a.attachClosure call closure).2.node? r).map Node.kind = (a.node? r).map Node.kind := by
  have widened (index stop : Nat) :
      ((a.widen index stop).node? r).map Node.kind = (a.node? r).map Node.kind := by
    rw [node?_widen]
    split <;> simp [Function.comp_def]
  unfold attachClosure
  split
  · split <;> exact widened _ _
  · rfl

/-- Nothing is attached to another node. -/
theorem attachClosure_other {a : Arena} {r closure : NodeRef}
    (h : ∀ n, a.node? r = some n → n.kind ≠ .call) : (a.attachClosure r closure).2 = a := by
  unfold attachClosure
  split
  · next here => exact absurd rfl (h _ here)
  · rfl

end Arena

end ParameterHints
