import ParameterHints.Proofs.Syntax.Walk

/-! # Nodes in a row

Places stand in a row between two offsets when all of them are nodes and each starts behind the one
before it. How far behind is left to a condition on the end of the one and the start of the other.
-/

namespace ParameterHints.Arena

/-- The places are nodes that follow one another from `lo` up to `hi`, with `gap` between the end
    of each and the start of the next. -/
def Row (a : Arena) (gap : Nat → Nat → Prop) : Nat → List NodeRef → Nat → Prop
  | lo, [], hi => lo ≤ hi
  | lo, r :: rest, hi =>
      ∃ n, a.node? r = some n ∧ gap lo n.start ∧ n.start ≤ n.stop ∧ a.Row gap n.stop rest hi

/-- A condition on gaps that speaks of order, and that a wider gap meets as well. -/
structure Lax (gap : Nat → Nat → Prop) : Prop where
  le : ∀ {lo start}, gap lo start → lo ≤ start
  lower : ∀ {lo lo' start}, lo' ≤ lo → gap lo start → gap lo' start

theorem lax_le : Lax (· ≤ ·) := ⟨id, Nat.le_trans⟩

namespace Row

variable {a : Arena} {gap gap' : Nat → Nat → Prop} {lo lo' mid hi hi' : Nat}
  {places others : List NodeRef}

theorem mono (h : a.Row gap lo places hi) (weaken : ∀ lo start, gap lo start → gap' lo start) :
    a.Row gap' lo places hi := by
  induction places generalizing lo with
  | nil => exact h
  | cons r rest ih =>
      obtain ⟨n, here, between, order, tail⟩ := h
      exact ⟨n, here, weaken _ _ between, order, ih tail⟩

theorem raise (h : a.Row gap lo places hi) (le : hi ≤ hi') : a.Row gap lo places hi' := by
  induction places generalizing lo with
  | nil => exact Nat.le_trans h le
  | cons r rest ih =>
      obtain ⟨n, here, between, order, tail⟩ := h
      exact ⟨n, here, between, order, ih tail⟩

theorem lower (lax : Lax gap) (le : lo' ≤ lo) (h : a.Row gap lo places hi) :
    a.Row gap lo' places hi := by
  cases places with
  | nil => exact Nat.le_trans le h
  | cons r rest =>
      obtain ⟨n, here, between, order, tail⟩ := h
      exact ⟨n, here, lax.lower le between, order, tail⟩

theorem bounds (lax : Lax gap) (h : a.Row gap lo places hi) : lo ≤ hi := by
  induction places generalizing lo with
  | nil => exact h
  | cons r rest ih =>
      obtain ⟨n, -, between, order, tail⟩ := h
      exact Nat.le_trans (lax.le between) (Nat.le_trans order (ih tail))

theorem append (lax : Lax gap) (h : a.Row gap lo places mid) (k : a.Row gap mid others hi) :
    a.Row gap lo (places ++ others) hi := by
  induction places generalizing lo with
  | nil => exact k.lower lax h
  | cons r rest ih =>
      obtain ⟨n, here, between, order, tail⟩ := h
      exact ⟨n, here, between, order, ih tail⟩

theorem left (lax : Lax gap) (h : a.Row gap lo (places ++ others) hi) :
    a.Row gap lo places hi := by
  induction places generalizing lo with
  | nil => exact h.bounds lax
  | cons r rest ih =>
      obtain ⟨n, here, between, order, tail⟩ := h
      exact ⟨n, here, between, order, ih tail⟩

/-- A row depends on nothing but the headers of its nodes. -/
theorem congr {b : Arena} (h : a.Row gap lo places hi)
    (same : ∀ r ∈ places, ∀ n, a.node? r = some n → b.node? r = some n) :
    b.Row gap lo places hi := by
  induction places generalizing lo with
  | nil => exact h
  | cons r rest ih =>
      obtain ⟨n, here, between, order, tail⟩ := h
      exact ⟨n, same r List.mem_cons_self n here, between, order,
        ih tail fun s member => same s (List.mem_cons_of_mem r member)⟩

theorem mem (lax : Lax gap) (h : a.Row gap lo places hi) {r : NodeRef} (member : r ∈ places) :
    ∃ n, a.node? r = some n ∧ gap lo n.start ∧ n.start ≤ n.stop ∧ n.stop ≤ hi := by
  induction places generalizing lo with
  | nil => cases member
  | cons s rest ih =>
      obtain ⟨n, here, between, order, tail⟩ := h
      rcases List.mem_cons.mp member with rfl | later
      · exact ⟨n, here, between, order, tail.bounds lax⟩
      · obtain ⟨m, there, gapM, orderM, last⟩ := ih tail later
        have below := Nat.le_trans (lax.le between) order
        exact ⟨m, there, lax.lower below gapM, orderM, last⟩

/-- Of any two places of a row the one ends before the other starts, with a gap in between. -/
theorem pairwise (lax : Lax gap) (h : a.Row gap lo places hi) :
    places.Pairwise fun r s =>
      ∀ n m, a.node? r = some n → a.node? s = some m → gap n.stop m.start := by
  induction places generalizing lo with
  | nil => exact .nil
  | cons r rest ih =>
      obtain ⟨n, here, -, -, tail⟩ := h
      refine List.pairwise_cons.mpr ⟨?_, ih tail⟩
      intro s member k m found there
      rw [here] at found
      cases found
      obtain ⟨m', there', between, -, -⟩ := tail.mem lax member
      rw [there] at there'
      cases there'
      exact between

/-- One more node fits behind a row. -/
theorem snoc (h : a.Row gap lo places mid) (lax : Lax gap) {r : NodeRef} {n : Node}
    (here : a.node? r = some n) (between : gap mid n.start) (order : n.start ≤ n.stop)
    (last : n.stop ≤ hi) : a.Row gap lo (places ++ [r]) hi :=
  h.append lax ⟨n, here, between, order, last⟩

end Row

end ParameterHints.Arena
