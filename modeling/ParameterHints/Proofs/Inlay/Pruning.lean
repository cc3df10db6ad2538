import ParameterHints.Proofs.Inlay.ReadingOrder
import ParameterHints.Proofs.Syntax.Walk

/-! # Hints of a range

A document leaves out subtrees that do not touch the requested offsets, and then every hint that is
outside them. In an arena whose nodes lie inside their parents the first choice is invisible: the
same hints come from a walk through everything, and ties keep the order of that walk.
-/

namespace ParameterHints.Document

/-- The hints of each call lie between the two ends of the call. -/
def HintsInside (d : Document) : Prop :=
  ∀ r n, d.arena.node? r = some n → n.kind = .call →
    ∀ h ∈ d.provider.hints d.arena r, n.start ≤ h.offset ∧ h.offset ≤ n.stop

/-- What a place contributes to the hints between two offsets, whatever surrounds it. Only a call
    whose method is unknown or not denied contributes. -/
def contribution (d : Document) (start stop : Nat) (r : NodeRef) : List InlayHint :=
  match d.arena.node? r with
  | some ⟨.call, _, _, _⟩ =>
      let info := d.provider.methodInfo? d.arena r
      if ∀ i ∈ info, ¬ d.denylist.denies i then
        (d.provider.hints d.arena r).filterMap fun h =>
          if start ≤ h.offset ∧ h.offset ≤ stop then
            some ⟨d.lines.position h.offset, h.text ++ ": ", info.map MethodInfo.fullName⟩
          else none
      else []
  | _ => []

/-- Placing the hints between two offsets, written as one pass. -/
theorem map_inlay_filter (d : Document) (info : Option MethodInfo) (start stop : Nat)
    (hints : List ParameterHint) :
    (hints.filter fun h => start ≤ h.offset && h.offset ≤ stop).map (d.inlay info) =
      hints.filterMap fun h =>
        if start ≤ h.offset ∧ h.offset ≤ stop then
          some ⟨d.lines.position h.offset, h.text ++ ": ", info.map MethodInfo.fullName⟩
        else none := by
  induction hints with
  | nil => rfl
  | cons h rest ih =>
      by_cases within : start ≤ h.offset ∧ h.offset ≤ stop
      · simp [within, inlay_eq, ih]
      · rw [List.filter_cons_of_neg (by simpa using within), ih]
        simp only [List.filterMap_cons, if_neg within]

theorem isCall_iff {d : Document} {r : NodeRef} :
    d.isCall r ↔ ∃ n, d.arena.node? r = some n ∧ n.kind = .call := by
  cases here : d.arena.node? r <;> simp [isCall, here]

/-- The hints of a call are its contribution. -/
theorem callHints_eq_contribution (d : Document) (start stop : Nat) {r : NodeRef}
    (call : d.isCall r) : d.callHints start stop r = d.contribution start stop r := by
  obtain ⟨⟨kind, first, last, data⟩, here, rfl⟩ := isCall_iff.mp call
  simp only [callHints, contribution, here, map_inlay_filter]
  cases d.provider.methodInfo? d.arena r with
  | none => simp
  | some i => by_cases denied : d.denylist.denies i <;> simp [denied]

theorem contribution_of_not_call (d : Document) (start stop : Nat) {r : NodeRef}
    (other : ¬ d.isCall r) : d.contribution start stop r = [] := by
  unfold contribution
  split
  · next here => simp [isCall, here] at other
  · rfl

/-- Nothing of a call is outside the call, so nothing is collected from calls that lie on one side
    of the offsets. -/
theorem contribution_outside {d : Document} (inside : d.HintsInside) {start stop : Nat}
    {r : NodeRef} {n : Node} (here : d.arena.node? r = some n)
    (outside : n.stop < start ∨ stop < n.start) : d.contribution start stop r = [] := by
  unfold contribution
  split
  · next first last data found =>
      rw [here] at found
      cases found
      dsimp only at outside ⊢
      split
      · rw [List.filterMap_eq_nil_iff]
        intro h member
        obtain ⟨low, high⟩ := inside r _ here rfl h member
        refine if_neg fun within => ?_
        dsimp only at low high
        omega
      · rfl
  · rfl

/-- What calls show is what all places contribute, since nothing else contributes. -/
theorem flatMap_callHints (d : Document) (start stop : Nat) (places : List NodeRef) :
    (places.filter d.isCall).flatMap (d.callHints start stop) =
      places.flatMap (d.contribution start stop) := by
  induction places with
  | nil => rfl
  | cons r rest ih =>
      by_cases call : d.isCall r
      · simp [call, ih, callHints_eq_contribution]
      · simp [call, ih, contribution_of_not_call]

/-- What is collected between two offsets is what all places below the root contribute. -/
theorem collect_eq_contributions {d : Document} (nested : d.arena.Nested) (inside : d.HintsInside)
    (root : NodeRef) (start stop : Nat) :
    d.collect root start stop =
      (d.arena.walk (fun _ => true) root).flatMap (d.contribution start stop) := by
  rw [collect, flatMap_callHints]
  refine Arena.flatMap_pruned _ _ ?_ _ _
  intro r n depth here skipped z member
  obtain ⟨m, there, low, high⟩ := Arena.inside_of_mem_walkWithin nested here member
  simp only [Bool.and_eq_false_iff, decide_eq_false_iff_not, not_le] at skipped
  exact contribution_outside inside there (by omega)

/-- The hints below a place for a range are the stable sorting by position of what all places of
    the depth-first walk contribute, whatever subtrees were left out. -/
theorem hints_iff_sorted_contributions (d : Document) (acyclic : d.arena.Acyclic)
    (nested : d.arena.Nested) (inside : d.HintsInside) (enabled : d.config.parameterHints = true)
    (root : NodeRef) (range : PositionRange) :
    (∃! visited, d.arena.Visits [root] visited) ∧
      ∀ visited sorted, d.arena.Visits [root] visited →
        (InlayHint.StablySorted
            (visited.flatMap (d.contribution (d.lines.offsets range).1 (d.lines.offsets range).2))
            sorted ↔
          sorted = d.hints root range) := by
  have walked := Arena.walk_visits acyclic root
  refine ⟨⟨_, walked, fun other walk => walk.unique walked⟩, ?_⟩
  intro visited sorted walk
  rw [walk.unique walked, ← collect_eq_contributions nested inside, InlayHint.stablySorted_iff]
  simp only [hints, enabled, if_true]

/-- A denied call around a call of no width and a place without a node. -/
def deniedAround : Document where
  arena := { Arena.empty with
    nodes := #[⟨.call, 0, 6, some 0⟩, ⟨.call, 3, 3, some 1⟩]
    calls := #[⟨none, [some 1, some 9], []⟩, ⟨none, [], []⟩] }
  lines := .ofText "f(\n())".toList
  provider := {
    hints := fun _ r => if r = some 0 then [⟨"outer", 0⟩] else [⟨"first", 3⟩, ⟨"second", 3⟩]
    methodInfo? := fun _ r => if r = some 0 then some ⟨"f", []⟩ else none
    denylist := []
    dependency := none }
  denylist := ⟨[⟨['*'], ⟨.anything⟩, none⟩]⟩
  config := .default

theorem node_deniedAround {r : NodeRef} {n : Node} (h : deniedAround.arena.node? r = some n) :
    r = some 0 ∧ n = ⟨.call, 0, 6, some 0⟩ ∨ r = some 1 ∧ n = ⟨.call, 3, 3, some 1⟩ := by
  obtain ⟨i, rfl, inside⟩ := Arena.index_lt_size h
  have inside : i < 2 := inside
  rcases Nat.lt_succ_iff_lt_or_eq.mp inside with first | rfl
  · obtain rfl := Nat.lt_one_iff.mp first
    exact .inl ⟨rfl, (Option.some.inj h).symm⟩
  · exact .inr ⟨rfl, (Option.some.inj h).symm⟩

theorem acyclic_deniedAround : deniedAround.arena.Acyclic := by
  refine Arena.acyclic_of_rank (fun r => if r = some 0 then 2 else if r = some 1 then 1 else 0) ?_
  intro p c child
  cases here : deniedAround.arena.node? p with
  | none => simp [Arena.HasChild, Arena.children_of_dangling here] at child
  | some n =>
      rcases node_deniedAround here with ⟨rfl, -⟩ | ⟨rfl, -⟩
      · have child : c ∈ [none, some 1, some 9] := child
        simp only [List.mem_cons, List.not_mem_nil, or_false] at child
        rcases child with rfl | rfl | rfl <;> decide
      · obtain rfl : c = none := List.mem_singleton.mp child
        decide

theorem hints_deniedAround :
    (∃! visited, deniedAround.arena.Visits [some 0] visited) ∧
      ∀ visited sorted, deniedAround.arena.Visits [some 0] visited →
        (InlayHint.StablySorted (visited.flatMap (deniedAround.contribution 2 3)) sorted ↔
          sorted = deniedAround.hints (some 0) ⟨⟨0, 9⟩, ⟨1, 0⟩⟩) := by
  refine hints_iff_sorted_contributions deniedAround acyclic_deniedAround ?_ ?_ rfl (some 0)
    ⟨⟨0, 9⟩, ⟨1, 0⟩⟩
  · intro p n here c m child there
    rcases node_deniedAround here with ⟨rfl, rfl⟩ | ⟨rfl, rfl⟩
    · rcases node_deniedAround there with ⟨rfl, rfl⟩ | ⟨rfl, rfl⟩ <;> decide
    · obtain rfl : c = none := List.mem_singleton.mp child
      cases there
  · intro r n here _ h member
    rcases node_deniedAround here with ⟨rfl, rfl⟩ | ⟨rfl, rfl⟩
    · obtain rfl : h = ⟨"outer", 0⟩ := List.mem_singleton.mp member
      decide
    · have member : h ∈ [⟨"first", 3⟩, ⟨"second", 3⟩] := member
      simp only [List.mem_cons, List.not_mem_nil, or_false] at member
      rcases member with rfl | rfl <;> decide

end ParameterHints.Document
