import ParameterHints.Proofs.Syntax.Row
import ParameterHints.Proofs.Syntax.Storage
import ParameterHints.Proofs.Text.Boundary

/-! # Well-formed arenas over a text

The children of a node stand in a row inside it, and the arguments of a call have a separator
between them. A place is listed as a child once at most, and going down never comes back. These
conditions are kept when text is written, when a node is added over places that are nobody's
children yet, and when a closure is attached to a call that is nobody's child yet.
-/

namespace ParameterHints.Arena

/-- How the parts of a call lie in it. -/
structure CallLaid (a : Arena) (text : List Char) (n : Node) (c : Call) : Prop where
  row : ∃ m, a.node? c.callee = some m ∧ n.start ≤ m.start ∧
    a.Row (Text.IsSeparated text) m.stop c.allArguments n.stop
  begun : ∀ r ∈ c.allArguments, ∀ m, a.node? r = some m → m.start < n.stop
  closures : ∀ r ∈ c.closures, ∀ m, a.node? r = some m → m.kind = .closure

/-- How a node lies in a text, and its children in it. -/
structure Laid (a : Arena) (text : List Char) (n : Node) : Prop where
  start : Text.IsBoundary text n.start
  stop : Text.IsBoundary text n.stop
  row : a.Row (· ≤ ·) n.start (a.childrenOf n) n.stop
  call : ∀ c, a.call? n = some c → a.CallLaid text n c

structure WellFormed (a : Arena) (text : List Char) : Prop where
  stored : ∀ r n, a.node? r = some n → a.Stored n
  /-- No two calls share their data. -/
  unshared : ∀ r s n m, a.node? r = some n → a.node? s = some m → n.kind = .call →
    m.kind = .call → n.data = m.data → r = s
  /-- No pool has more entries than there are nodes. -/
  pools : ∀ kind, a.poolSize kind ≤ a.size
  laid : ∀ r n, a.node? r = some n → a.Laid text n
  once : ∀ p, (a.children p).Nodup
  owner : ∀ p q c, a.HasChild p c → a.HasChild q c → p = q
  ranked : ∃ rank : NodeRef → Nat, ∀ p c, a.HasChild p c → rank c < rank p

theorem lax_separated (text : List Char) : Lax (Text.IsSeparated text) :=
  ⟨fun h => Nat.le_of_lt h.lt, fun le h => h.lower le⟩

namespace CallLaid

variable {a b : Arena} {text : List Char} {n : Node} {c : Call}

theorem append (h : a.CallLaid text n c) (more : List Char) : a.CallLaid (text ++ more) n c := by
  obtain ⟨callee, here, start, row⟩ := h.row
  exact { h with row := ⟨callee, here, start, row.mono fun _ _ separated => separated.append more⟩ }

/-- What a call says of its parts depends only on their headers. -/
theorem congr (h : a.CallLaid text n c)
    (same : ∀ r ∈ c.callee :: c.allArguments, ∀ m, a.node? r = some m → b.node? r = some m) :
    b.CallLaid text n c := by
  obtain ⟨callee, here, start, row⟩ := h.row
  have old : ∀ r ∈ c.allArguments, ∃ k, a.node? r = some k ∧ b.node? r = some k := by
    intro r member
    obtain ⟨k, found, -⟩ := row.mem (lax_separated text) member
    exact ⟨k, found, same r (List.mem_cons_of_mem _ member) k found⟩
  refine ⟨⟨callee, same _ List.mem_cons_self _ here, start, ?_⟩, ?_, ?_⟩
  · exact row.congr fun r member => same r (List.mem_cons_of_mem _ member)
  · intro r member m found
    obtain ⟨k, before, after⟩ := old r member
    rw [after] at found
    cases found
    exact h.begun r member _ before
  · intro r member m found
    obtain ⟨k, before, after⟩ := old r (List.mem_append_right _ member)
    rw [after] at found
    cases found
    exact h.closures r member _ before

/-- One more closure behind a call widens it. -/
theorem snoc (h : a.CallLaid text n c) {r : NodeRef} {m : Node} (there : a.node? r = some m)
    (body : m.kind = .closure) (behind : Text.IsSeparated text n.stop m.start)
    (nonempty : m.start < m.stop) :
    a.CallLaid text { n with stop := m.stop } { c with closures := c.closures ++ [r] } := by
  obtain ⟨callee, here, start, row⟩ := h.row
  refine ⟨⟨callee, here, start, ?_⟩, ?_, ?_⟩
  · rw [Call.allArguments, ← List.append_assoc]
    exact row.snoc (lax_separated text) there behind (Nat.le_of_lt nonempty) (Nat.le_refl _)
  · intro s member k found
    rw [Call.allArguments, ← List.append_assoc] at member
    rcases List.mem_append.mp member with old | new
    · have begun := h.begun s old k found
      have later := behind.lt
      dsimp only
      omega
    · rw [List.mem_singleton.mp new, there] at found
      cases found
      exact nonempty
  · intro s member k found
    rcases List.mem_append.mp member with old | new
    · exact h.closures s old k found
    · rw [List.mem_singleton.mp new, there] at found
      cases found
      exact body

end CallLaid

namespace Laid

variable {a b : Arena} {text : List Char} {n : Node}

theorem append (h : a.Laid text n) (more : List Char) : a.Laid (text ++ more) n where
  start := h.start.append more
  stop := h.stop.append more
  row := h.row
  call c found := (h.call c found).append more

/-- A node stays laid out when neither its data nor the headers of its children change. -/
theorem congr (h : a.Laid text n) (children : b.childrenOf n = a.childrenOf n)
    (data : b.call? n = a.call? n)
    (same : ∀ r ∈ a.childrenOf n, ∀ m, a.node? r = some m → b.node? r = some m) :
    b.Laid text n where
  start := h.start
  stop := h.stop
  row := by
    rw [children]
    exact h.row.congr same
  call c found := by
    rw [data] at found
    refine (h.call c found).congr fun r member => same r ?_
    rwa [childrenOf_of_call? found]

end Laid

namespace WellFormed

variable {a : Arena} {text : List Char}

theorem acyclic (wf : a.WellFormed text) : a.Acyclic := by
  obtain ⟨rank, lower⟩ := wf.ranked
  exact acyclic_of_rank rank lower

/-- A child is a node inside its parent. -/
theorem child (wf : a.WellFormed text) {p c : NodeRef} (h : a.HasChild p c) :
    ∃ n m, a.node? p = some n ∧ a.node? c = some m ∧ n.start ≤ m.start ∧ m.start ≤ m.stop ∧
      m.stop ≤ n.stop := by
  cases here : a.node? p with
  | none => simp [HasChild, children_of_dangling here] at h
  | some n =>
      rw [HasChild, children_of_node here] at h
      obtain ⟨m, there, start, order, stop⟩ := (wf.laid p n here).row.mem lax_le h
      exact ⟨n, m, rfl, there, start, order, stop⟩

theorem nested (wf : a.WellFormed text) : a.Nested := by
  intro p n here c m child there
  obtain ⟨n', m', here', there', start, -, stop⟩ := wf.child child
  rw [here] at here'
  rw [there] at there'
  cases here'
  cases there'
  exact ⟨start, stop⟩

theorem start_le_stop (wf : a.WellFormed text) {r : NodeRef} {n : Node} (h : a.node? r = some n) :
    n.start ≤ n.stop :=
  (wf.laid r n h).row.bounds lax_le

theorem empty : Arena.empty.WellFormed text := by
  have none : ∀ r, Arena.empty.node? r = none := by
    intro r
    cases r <;> rfl
  have childless : ∀ p c, ¬ Arena.empty.HasChild p c := by
    intro p c
    simp [HasChild, children_of_dangling (none p)]
  refine ⟨?_, ?_, ?_, ?_, ?_, fun p q c h => absurd h (childless p c), fun _ => 0, ?_⟩
  · intro r n h
    rw [none] at h
    cases h
  · intro r s n m h
    rw [none] at h
    cases h
  · intro kind
    cases kind <;> exact Nat.le_refl _
  · intro r n h
    rw [none] at h
    cases h
  · intro p
    rw [children_of_dangling (none p)]
    exact .nil
  · exact fun p c h => absurd h (childless p c)

/-- Text may be written at any time. -/
theorem append (wf : a.WellFormed text) (more : List Char) : a.WellFormed (text ++ more) :=
  { wf with laid := fun r n here => (wf.laid r n here).append more }

end WellFormed

end ParameterHints.Arena
