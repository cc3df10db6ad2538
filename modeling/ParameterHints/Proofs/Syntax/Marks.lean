import ParameterHints.Proofs.Syntax.WellFormed

/-! # Marks

Offsets that belong to nodes, each strictly inside its node and strictly inside no child of it.
Such marks of different nodes are different, because the children of a node are apart. The starts
of the arguments of calls are marks of the calls.
-/

namespace ParameterHints.Arena

variable {a : Arena} {text : List Char} {r s : NodeRef} {n m : Node} {c : Call}

structure Marked (a : Arena) (marks : NodeRef → List Nat) : Prop where
  inside : ∀ r, ∀ o ∈ marks r, ∃ n, a.node? r = some n ∧ n.start < o ∧ o < n.stop
  outside : ∀ r, ∀ o ∈ marks r, ∀ c ∈ a.children r, ∀ m, a.node? c = some m →
    o ≤ m.start ∨ m.stop ≤ o
  nodup : ∀ r, (marks r).Nodup

namespace Marked

variable {marks : NodeRef → List Nat}

/-- All marks below a node are strictly inside it. -/
theorem inside_walk (h : a.Marked marks) (wf : a.WellFormed text) {enter : Node → Bool}
    {depth o : Nat} (member : o ∈ (a.walkWithin enter depth r).flatMap marks) :
    ∃ n, a.node? r = some n ∧ n.start < o ∧ o < n.stop := by
  obtain ⟨s, below, mark⟩ := List.mem_flatMap.mp member
  cases here : a.node? r with
  | none => cases depth <;> simp [walkWithin, here] at below
  | some n =>
      obtain ⟨m, there, start, stop⟩ := inside_of_mem_walkWithin wf.nested here below
      obtain ⟨m', found, low, high⟩ := h.inside s o mark
      rw [there] at found
      cases found
      exact ⟨n, rfl, Nat.lt_of_le_of_lt start low, Nat.lt_of_lt_of_le high stop⟩

/-- No mark is met twice on a walk. -/
theorem nodup_walk (h : a.Marked marks) (wf : a.WellFormed text) (enter : Node → Bool)
    (depth : Nat) (r : NodeRef) : ((a.walkWithin enter depth r).flatMap marks).Nodup := by
  induction depth generalizing r with
  | zero => exact .nil
  | succ depth ih =>
      cases here : a.node? r with
      | none =>
          simp only [walkWithin, here]
          exact .nil
      | some n =>
          simp only [walkWithin, here]
          split
          · rw [List.flatMap_cons, List.flatMap_assoc, List.nodup_append, List.nodup_flatMap]
            refine ⟨h.nodup r, ⟨fun c _ => ih c, ?_⟩, ?_⟩
            · -- Of two children the one ends before the other starts.
              refine ((wf.laid r n here).row.pairwise lax_le).imp ?_
              intro c d apart o first second
              obtain ⟨k, hereC, -, high⟩ := h.inside_walk wf first
              obtain ⟨m, hereD, low, -⟩ := h.inside_walk wf second
              have := apart k m hereC hereD
              omega
            · intro o own o' below same
              obtain ⟨c, child, below⟩ := List.mem_flatMap.mp below
              obtain ⟨m, there, low, high⟩ := h.inside_walk wf below
              have child : c ∈ a.children r := by rwa [children_of_node here]
              have := h.outside r o own c child m there
              omega
          · exact .nil

end Marked

/-! ## Starts of arguments -/

namespace CallLaid

/-- An argument starts strictly behind the callee, and strictly inside the call. -/
theorem start_inside (h : a.CallLaid text n c) (wf : a.WellFormed text)
    (member : r ∈ c.allArguments) (here : a.node? r = some m) :
    n.start < m.start ∧ m.start < n.stop := by
  obtain ⟨callee, there, start, row⟩ := h.row
  obtain ⟨m', found, gap, -⟩ := row.mem (lax_separated text) member
  rw [here] at found
  cases found
  have order := wf.start_le_stop there
  have behind := gap.lt
  exact ⟨by omega, h.begun r member m here⟩

theorem starts_pairwise (h : a.CallLaid text n c) :
    c.allArguments.Pairwise fun r s =>
      ∀ n m, a.node? r = some n → a.node? s = some m → n.stop < m.start := by
  obtain ⟨callee, -, -, row⟩ := h.row
  exact (row.pairwise (lax_separated text)).imp fun gap n m hereN hereM =>
    (gap n m hereN hereM).lt

/-- No argument starts strictly inside another part of its call. -/
theorem start_outside (h : a.CallLaid text n c) (wf : a.WellFormed text)
    (member : r ∈ c.allArguments) (here : a.node? r = some m) {k : Node}
    (part : s ∈ c.callee :: c.allArguments) (there : a.node? s = some k) :
    m.start ≤ k.start ∨ k.stop ≤ m.start := by
  rcases List.mem_cons.mp part with rfl | argument
  · obtain ⟨callee, found, -, row⟩ := h.row
    obtain ⟨m', found', gap, -⟩ := row.mem (lax_separated text) member
    rw [here] at found'
    rw [there] at found
    cases found
    cases found'
    exact .inr (Nat.le_of_lt gap.lt)
  · have every : ∀ x ∈ c.allArguments, ∀ y ∈ c.allArguments, ∀ m k, a.node? x = some m →
        a.node? y = some k → m.start ≤ k.start ∨ k.stop ≤ m.start := by
      refine List.Pairwise.forall_of_forall_of_flip ?_ ?_ ?_
      · intro x _ m k hereM hereK
        rw [hereM] at hereK
        cases hereK
        exact .inl (Nat.le_refl _)
      · refine h.starts_pairwise.imp fun gap m k hereM hereK => .inl ?_
        exact Nat.le_of_lt (Nat.lt_of_le_of_lt (wf.start_le_stop hereM) (gap m k hereM hereK))
      · exact h.starts_pairwise.imp fun gap m k hereM hereK =>
          .inr (Nat.le_of_lt (gap k m hereK hereM))
    exact every r member s argument m k here there

end CallLaid

end ParameterHints.Arena
