import ParameterHints.Proofs.Call.Surroundings

/-! # Appended nodes

New nodes go behind the old ones, and so do their data in each pool. In an arena where no header and
no data points at what is not there, whatever is appended, with dangling parts or not, makes no
difference to any answer about an old place. It would if an old part dangled: the next node may come
to stand there.
-/

namespace ParameterHints

/-! ## Moving by nothing -/

theorem NodeRef.shift_zero : NodeRef.shift 0 = id := by
  funext r
  cases r <;> rfl

theorem Content.shift_zero : Content.shift 0 = id := by
  funext c
  cases c <;> simp [Content.shift, Reference.shift, Call.shift, NamedArgument.shift,
    NodeRef.shift_zero]

theorem Binding.shift_zero : Binding.shift 0 = id := by
  funext bound
  simp [Binding.shift, NodeRef.shift_zero]

theorem ParameterHint.shift_zero : ParameterHint.shift 0 = id := rfl

namespace Arena

variable {a b c : Arena} {n : Node} {r : NodeRef}

/-- The header has no data, or it points at an entry of the pool of its kind. -/
def Backed (a : Arena) (n : Node) : Prop := ∀ k, n.data = some k → k < a.poolSize n.kind

/-- All that `a` has at a place, `b` has there too. -/
structure Prolongs (a b : Arena) : Prop where
  node : ∀ r n, a.node? r = some n → b.node? r = some n
  content : ∀ r n, a.node? r = some n → b.content? n = a.content? n

namespace Prolongs

theorem refl (a : Arena) : a.Prolongs a := ⟨fun _ _ here => here, fun _ _ _ => rfl⟩

theorem trans (h : a.Prolongs b) (k : b.Prolongs c) : a.Prolongs c where
  node r n here := k.node r n (h.node r n here)
  content r n here := (k.content r n (h.node r n here)).trans (h.content r n here)

theorem add (backed : ∀ r n, a.node? r = some n → a.Backed n) (x : NewNode) :
    a.Prolongs (a.add x) where
  node r n here := node?_add_of_node x here
  content r n here := by
    cases data : n.data with
    | none => rw [content?_of_no_data data, content?_of_no_data data]
    | some k => exact content?_add x ⟨k, data, backed r n here k data⟩

/-- An arena that has all of another has a copy of it at the same places. -/
theorem relocates (h : a.Prolongs b) : a.Relocates 0 0 b where
  node r n here := ⟨n.data, by rw [NodeRef.shift_zero]; exact h.node r n here⟩
  content r n here := by
    rw [NodeRef.shift_zero, Content.shift_zero, Option.map_id, id, id, contentAt?_of_node here,
      contentAt?_of_node (h.node r n here), h.content r n here]

end Prolongs

/-- Headers stay backed, and a new one is. -/
theorem backed_add (backed : ∀ r n, a.node? r = some n → a.Backed n) (x : NewNode) (r : NodeRef)
    (n : Node) (here : (a.add x).node? r = some n) : (a.add x).Backed n := by
  intro k data
  rcases node?_add_cases here with old | ⟨-, rfl⟩
  · exact Nat.lt_of_lt_of_le (backed r n old k data) (poolSize_le_add a x n.kind)
  · obtain ⟨k', same, inside⟩ := stored_newHeader a x
    cases data.symm.trans same
    exact inside

/-- An arena with more nodes behind its own. -/
def addAll (a : Arena) (xs : List NewNode) : Arena := xs.foldl add a

theorem prolongs_addAll (backed : ∀ r n, a.node? r = some n → a.Backed n) (xs : List NewNode) :
    a.Prolongs (a.addAll xs) := by
  induction xs generalizing a with
  | nil => exact .refl a
  | cons x rest ih => exact (Prolongs.add backed x).trans (ih (backed_add backed x))

/-- Headers point into the pools, and the parts of all references and calls are nodes or no places
    at all. -/
structure Closed (a : Arena) : Prop where
  backed : ∀ n ∈ a.nodes, a.Backed n
  references : ∀ data ∈ a.references, a.Grounded data.qualifier ∧ a.Grounded data.name
  calls : ∀ call ∈ a.calls, a.Grounded call.callee ∧
    ∀ argument ∈ call.allArguments, a.Grounded argument

instance (a : Arena) (n : Node) : Decidable (a.Backed n) :=
  inferInstanceAs (Decidable (∀ k ∈ n.data, k < a.poolSize n.kind))

instance (a : Arena) (r : NodeRef) : Decidable (a.Grounded r) :=
  inferInstanceAs (Decidable (∀ i ∈ r, (a.node? r).isSome))

instance (a : Arena) : Decidable a.Closed :=
  decidable_of_iff ((∀ n ∈ a.nodes, a.Backed n) ∧
    (∀ data ∈ a.references, a.Grounded data.qualifier ∧ a.Grounded data.name) ∧
    ∀ call ∈ a.calls, a.Grounded call.callee ∧ ∀ argument ∈ call.allArguments, a.Grounded argument)
    ⟨fun ⟨backed, references, calls⟩ => ⟨backed, references, calls⟩,
      fun closed => ⟨closed.backed, closed.references, closed.calls⟩⟩

theorem mem_references {data : Reference} (h : a.referenceAt? r = some data) :
    data ∈ a.references := by
  obtain ⟨⟨kind, start, stop, index⟩, -, found⟩ := Option.bind_eq_some_iff.mp h
  cases kind with
  | reference =>
      cases index with
      | none => cases found
      | some k => exact Array.mem_of_getElem? found
  | _ => cases found

theorem mem_calls {call : Call} (h : a.callAt? r = some call) : call ∈ a.calls := by
  obtain ⟨⟨kind, start, stop, index⟩, -, found⟩ := Option.bind_eq_some_iff.mp h
  cases kind with
  | call =>
      cases index with
      | none => cases found
      | some k => exact Array.mem_of_getElem? found
  | _ => cases found

namespace Closed

theorem prolongs (closed : a.Closed) (xs : List NewNode) : a.Prolongs (a.addAll xs) := by
  refine prolongs_addAll (fun r n here => closed.backed n ?_) xs
  obtain ⟨i, -, found⟩ := Option.bind_eq_some_iff.mp here
  exact Array.mem_of_getElem? found

theorem allGrounded (closed : a.Closed) : a.AllGrounded where
  reference _ data found := closed.references data (mem_references found)
  call _ call found := closed.calls call (mem_calls found)

theorem copies (closed : a.Closed) (xs : List NewNode) : a.Copies 0 0 (a.addAll xs) :=
  ⟨(closed.prolongs xs).relocates, closed.allGrounded⟩

end Closed

/-- Both arenas hold the same data for a header, of whatever kind that is. -/
structure SameData (a b : Arena) (n : Node) : Prop where
  identifier : b.identifier? n = a.identifier? n
  literal : b.literal? n = a.literal? n
  reference : b.reference? n = a.reference? n
  call : b.call? n = a.call? n
  namedArgument : b.namedArgument? n = a.namedArgument? n
  closure : b.closure? n = a.closure? n
  sourceFile : b.sourceFile? n = a.sourceFile? n

theorem sameData_of_content? (same : b.content? n = a.content? n) : a.SameData b n where
  identifier := by rw [identifier?_eq, identifier?_eq, same]
  literal := by rw [literal?_eq, literal?_eq, same]
  reference := by rw [reference?_eq, reference?_eq, same]
  call := by rw [call?_eq, call?_eq, same]
  namedArgument := by rw [namedArgument?_eq, namedArgument?_eq, same]
  closure := by rw [closure?_eq, closure?_eq, same]
  sourceFile := by rw [sourceFile?_eq, sourceFile?_eq, same]

/-- Every question about a place has the same answer in both arenas, also those that a table of
    declarations answers. -/
structure AnswersAlike (a b : Arena) (r : NodeRef) : Prop where
  node : b.node? r = a.node? r
  data : ∀ n, a.node? r = some n → a.SameData b n
  children : b.children r = a.children r
  call : b.callAt? r = a.callAt? r
  name : b.referenceName? r = a.referenceName? r
  path : b.path? r = a.path? r
  resolved : ∀ t : Table, t.host.resolve? b r = t.host.resolve? a r
  signature : ∀ t : Table, t.host.signature? b r = t.host.signature? a r
  bindings : ∀ (t : Table) (signature : Signature),
    t.host.bindings? signature b r = t.host.bindings? signature a r
  hints : ∀ t : Table, t.host.groovyProvider.hints b r = t.host.groovyProvider.hints a r
  info : ∀ t : Table,
    t.host.groovyProvider.methodInfo? b r = t.host.groovyProvider.methodInfo? a r

/-- Whatever is appended to a closed arena, all answers about its nodes stay the same. -/
theorem appending_disturbs_nothing (a : Arena) (closed : a.Closed) (xs : List NewNode) (r : NodeRef)
    (live : (a.node? r).isSome) : a.AnswersAlike (a.addAll xs) r := by
  have prolongs := closed.prolongs xs
  have copies := closed.copies xs
  obtain ⟨n, here⟩ := Option.isSome_iff_exists.mp live
  have there := prolongs.node r n here
  have content := prolongs.content r n here
  have same := sameData_of_content? content
  -- The table is asked about a copy of the place, which is the place itself.
  have grounded : a.Grounded r := fun _ _ => live
  have still : r.shift 0 = r := congrFun NodeRef.shift_zero r
  have name := copies.referenceName? grounded
  have path := copies.path? grounded
  have resolved (t : Table) := copies.resolve? t grounded
  have signature (t : Table) := copies.signature? t grounded
  have bindings (t : Table) := copies.bindings? t grounded
  have hints (t : Table) := copies.hints t grounded
  have info (t : Table) := copies.methodInfo? t grounded
  simp only [still] at name path resolved signature info
  simp only [still, Binding.shift_zero, List.map_id_fun, Option.map_id, id] at bindings
  simp only [still, ParameterHint.shift_zero, List.map_id] at hints
  refine ⟨there.trans here.symm, ?_, ?_, ?_, name, path, resolved, signature, bindings, hints, info⟩
  · intro m found
    cases here.symm.trans found
    exact same
  · rw [children_of_node here, children_of_node there, childrenOf_eq, childrenOf_eq, content]
  · rw [callAt?, callAt?, here, there, Option.bind_some, Option.bind_some, same.call]

/-- One node of every kind, with parts that are not there. -/
def strayNodes : List NewNode :=
  [.identifier "f" ⟨0, 1⟩, .literal .string "1" ⟨1, 2⟩, .reference (some 90) (some 8),
    .call (some 10) [some 91, none] ⟨0, 2⟩, .namedArgument (some 8) (some 92),
    .closure [some 93] ⟨2, 4⟩, .sourceFile [some 11, some 94] ⟨0, 4⟩]

/-- A call means what it meant, with the same hint. -/
theorem call_beside_stray_nodes :
    let a := (SyntaxTree.ofItems [.statement (.call "q.A.f" [.number "1"])]).arena
    let t := Table.ofChanges Table.overloads
    a.Closed ∧ a.AnswersAlike (a.addAll strayNodes) (some 7) ∧
      t.host.resolve? (a.addAll strayNodes) (some 7) = some 0 ∧
      t.host.groovyProvider.hints (a.addAll strayNodes) (some 7) = [⟨"x", 6⟩] := by
  intro a t
  have closed : a.Closed := by decide +kernel
  have alike := appending_disturbs_nothing a closed strayNodes (some 7) (by decide +kernel)
  refine ⟨closed, alike, ?_, ?_⟩
  · rw [alike.resolved]
    decide +kernel
  · rw [alike.hints]
    decide +kernel

/-- In another arena a name may be missing until the next node is there. -/
example :
    let a : Arena := { empty with
      nodes := #[⟨.reference, 0, 1, some 0⟩]
      references := #[⟨none, some 1⟩] }
    ¬ a.Closed ∧ a.referenceName? (some 0) = none ∧
      (a.addAll [.identifier "x" ⟨0, 1⟩]).referenceName? (some 0) = some "x" := by
  decide

end Arena

end ParameterHints
