import Mathlib.Data.List.Nodup
import Mathlib.Data.List.Perm.Subperm
import Mathlib.Logic.Relation
import ParameterHints.Syntax.Arena

/-! # Walks through an arena

A walk meets the places of a stack depth first, parents before their children, and may leave out
subtrees. The bound on the depth of `Arena.walk` never cuts a walk short when the arena has no
cycle, and when every place has one parent at most, no place is met twice.
-/

namespace ParameterHints.Arena

/-- `child` is listed among the children of the node at `parent`. -/
def HasChild (a : Arena) (parent child : NodeRef) : Prop := child ∈ a.children parent

/-- A place is reached by going down from another, or is that place. -/
def Reaches (a : Arena) : NodeRef → NodeRef → Prop := Relation.ReflTransGen a.HasChild

/-- No place is below itself. -/
def Acyclic (a : Arena) : Prop := ∀ r, ¬ Relation.TransGen a.HasChild r r

/-- The children of every node that are nodes cover no byte outside it. -/
def Nested (a : Arena) : Prop :=
  ∀ p n, a.node? p = some n → ∀ c m, c ∈ a.children p → a.node? c = some m →
    n.start ≤ m.start ∧ m.stop ≤ n.stop

/-- The places that a depth-first walk meets, given the stack of those that are still to be
    entered. The children of a place are pushed in their order, so that they come right after it.
    A place without a node is passed over. -/
inductive Visits (a : Arena) : List NodeRef → List NodeRef → Prop where
  | done : Visits a [] []
  | dangling {r stack visited} : a.node? r = none → Visits a stack visited →
      Visits a (r :: stack) visited
  | enter {r n stack visited} : a.node? r = some n →
      Visits a (a.children r ++ stack) visited → Visits a (r :: stack) (r :: visited)

/-- The places that a depth-first walk meets when each node that does not pass `enter` is left out,
    with all that is below it. -/
inductive PrunedVisits (a : Arena) (enter : Node → Bool) : List NodeRef → List NodeRef → Prop where
  | done : PrunedVisits a enter [] []
  | dangling {r stack visited} : a.node? r = none → PrunedVisits a enter stack visited →
      PrunedVisits a enter (r :: stack) visited
  | skip {r n stack visited} : a.node? r = some n → enter n = false →
      PrunedVisits a enter stack visited → PrunedVisits a enter (r :: stack) visited
  | enter {r n stack visited} : a.node? r = some n → enter n = true →
      PrunedVisits a enter (a.children r ++ stack) visited →
      PrunedVisits a enter (r :: stack) (r :: visited)

@[simp] theorem node?_none (a : Arena) : a.node? none = none := rfl

theorem children_of_node {a : Arena} {r : NodeRef} {n : Node} (h : a.node? r = some n) :
    a.children r = a.childrenOf n := by
  simp only [children, h]

theorem children_of_dangling {a : Arena} {r : NodeRef} (h : a.node? r = none) :
    a.children r = [] := by
  simp only [children, h]

theorem index_lt_size {a : Arena} {r : NodeRef} {n : Node} (h : a.node? r = some n) :
    ∃ i, r = some i ∧ i < a.size := by
  cases r with
  | none => simp [node?] at h
  | some i =>
      obtain ⟨inside, -⟩ := Array.getElem?_eq_some_iff.mp h
      exact ⟨i, rfl, inside⟩

/-- An arena that has each node of another at its place or later is no smaller. -/
theorem size_le_of_node {a b : Arena}
    (later : ∀ i n, a.node? (some i) = some n → ∃ j m, i ≤ j ∧ b.node? (some j) = some m) :
    a.size ≤ b.size := by
  by_contra less
  have last : a.size - 1 < a.nodes.size := by
    rw [size] at less ⊢
    omega
  obtain ⟨j, m, le, there⟩ := later (a.size - 1) a.nodes[a.size - 1] (by simp [node?, last])
  obtain ⟨_, same, inside⟩ := index_lt_size there
  cases same
  omega

/-- Places whose depth can be told apart have no cycle. -/
theorem acyclic_of_rank {a : Arena} (rank : NodeRef → Nat)
    (lower : ∀ p c, a.HasChild p c → rank c < rank p) : a.Acyclic := by
  have below : ∀ {p c}, Relation.TransGen a.HasChild p c → rank c < rank p := by
    intro p c path
    induction path with
    | single step => exact lower _ _ step
    | tail _ step ih => exact Nat.lt_trans (lower _ _ step) ih
  intro r cycle
  exact Nat.lt_irrefl _ (below cycle)

namespace PrunedVisits

variable {a : Arena} {enter : Node → Bool}

/-- A stack determines its walk. -/
theorem unique {stack first second} (h : PrunedVisits a enter stack first)
    (k : PrunedVisits a enter stack second) : first = second := by
  induction h generalizing second with
  | done =>
      cases k
      rfl
  | dangling none _ ih =>
      cases k with
      | dangling _ rest => exact ih rest
      | skip live _ _ => cases none.symm.trans live
      | enter live _ _ => cases none.symm.trans live
  | skip live refused _ ih =>
      cases k with
      | dangling none _ => cases none.symm.trans live
      | skip _ _ rest => exact ih rest
      | enter again entered _ =>
          cases live.symm.trans again
          exact absurd entered (by simp [refused])
  | enter live entered _ ih =>
      cases k with
      | dangling none _ => cases none.symm.trans live
      | skip again refused _ =>
          cases live.symm.trans again
          exact absurd entered (by simp [refused])
      | enter _ _ rest => rw [ih rest]

theorem append {left right first second} (h : PrunedVisits a enter left first)
    (k : PrunedVisits a enter right second) :
    PrunedVisits a enter (left ++ right) (first ++ second) := by
  induction h with
  | done => exact k
  | dangling none _ ih => exact .dangling none ih
  | skip live refused _ ih => exact .skip live refused ih
  | enter live entered _ ih =>
      rw [List.append_assoc] at ih
      exact .enter live entered ih

theorem flatMap {walk : NodeRef → List NodeRef} {stack : List NodeRef}
    (h : ∀ r ∈ stack, PrunedVisits a enter [r] (walk r)) :
    PrunedVisits a enter stack (stack.flatMap walk) := by
  induction stack with
  | nil => exact .done
  | cons r rest ih =>
      have head := h r List.mem_cons_self
      have tail := ih fun s member => h s (List.mem_cons_of_mem r member)
      exact head.append tail

end PrunedVisits

namespace Visits

variable {a : Arena}

/-- A walk that enters every node leaves out nothing. -/
theorem iff_pruned {stack visited} :
    Visits a stack visited ↔ PrunedVisits a (fun _ => true) stack visited := by
  constructor
  · intro h
    induction h with
    | done => exact .done
    | dangling none _ ih => exact .dangling none ih
    | enter live _ ih => exact .enter live rfl ih
  · intro h
    induction h with
    | done => exact .done
    | dangling none _ ih => exact .dangling none ih
    | skip _ refused _ _ => cases refused
    | enter live _ _ ih => exact .enter live ih

/-- A stack determines its walk. -/
theorem unique {stack first second} (h : Visits a stack first) (k : Visits a stack second) :
    first = second := (iff_pruned.mp h).unique (iff_pruned.mp k)

/-- A walk meets exactly the nodes that are reached from its stack. -/
theorem mem_iff {stack visited} (h : Visits a stack visited) (z : NodeRef) :
    z ∈ visited ↔ (a.node? z).isSome ∧ ∃ r ∈ stack, a.Reaches r z := by
  induction h with
  | done => simp
  | @dangling r stack visited none _ ih =>
      rw [ih]
      constructor
      · rintro ⟨live, s, member, reached⟩
        exact ⟨live, s, List.mem_cons_of_mem r member, reached⟩
      · rintro ⟨live, s, member, reached⟩
        refine ⟨live, s, ?_, reached⟩
        rcases List.mem_cons.mp member with rfl | member
        · rcases Relation.ReflTransGen.cases_head reached with rfl | ⟨c, child, -⟩
          · simp [none] at live
          · simp [HasChild, children_of_dangling none] at child
        · exact member
  | @enter r n stack visited live _ ih =>
      rw [List.mem_cons, ih]
      constructor
      · rintro (rfl | ⟨alive, s, member, reached⟩)
        · exact ⟨by simp [live], z, List.mem_cons_self, .refl⟩
        · rcases List.mem_append.mp member with child | member
          · exact ⟨alive, r, List.mem_cons_self, .head child reached⟩
          · exact ⟨alive, s, List.mem_cons_of_mem r member, reached⟩
      · rintro ⟨alive, s, member, reached⟩
        rcases List.mem_cons.mp member with rfl | member
        · rcases Relation.ReflTransGen.cases_head reached with rfl | ⟨c, child, rest⟩
          · exact .inl rfl
          · exact .inr ⟨alive, c, List.mem_append_left _ child, rest⟩
        · exact .inr ⟨alive, s, List.mem_append_right _ member, reached⟩

end Visits

/-- Different nodes on a path are no more than the arena has. -/
theorem length_le_size {a : Arena} {path : List NodeRef} (different : path.Nodup)
    (live : ∀ r ∈ path, (a.node? r).isSome) : path.length ≤ a.size := by
  have inside : path ⊆ (List.range a.size).map some := by
    intro r member
    obtain ⟨n, hn⟩ := Option.isSome_iff_exists.mp (live r member)
    obtain ⟨i, rfl, lt⟩ := index_lt_size hn
    simpa using lt
  simpa using (different.subperm inside).length_le

/-- The nodes on a way down to a place, which are all different. -/
structure WayTo (a : Arena) (way : List NodeRef) (r : NodeRef) : Prop where
  different : way.Nodup
  live : ∀ p ∈ way, (a.node? p).isSome
  above : ∀ p ∈ way, Relation.TransGen a.HasChild p r

namespace WayTo

variable {a : Arena} {way : List NodeRef} {r c : NodeRef}

theorem start (a : Arena) (r : NodeRef) : a.WayTo [] r :=
  ⟨.nil, by simp, by simp⟩

/-- Without a cycle the way to a node does not come through it. -/
theorem through (h : a.WayTo way r) (acyclic : a.Acyclic) (live : (a.node? r).isSome) :
    (r :: way).Nodup ∧ ∀ p ∈ r :: way, (a.node? p).isSome :=
  ⟨List.nodup_cons.mpr ⟨fun member => acyclic r (h.above r member), h.different⟩,
    List.forall_mem_cons.mpr ⟨live, h.live⟩⟩

theorem step (h : a.WayTo way r) (acyclic : a.Acyclic) (live : (a.node? r).isSome)
    (child : a.HasChild r c) : a.WayTo (r :: way) c where
  different := (h.through acyclic live).1
  live := (h.through acyclic live).2
  above := List.forall_mem_cons.mpr ⟨.single child, fun p member => (h.above p member).tail child⟩

/-- With as many levels left as there are nodes off the way, one is left for a node at its end. -/
theorem room (h : a.WayTo way r) (acyclic : a.Acyclic) (live : (a.node? r).isSome) {depth : Nat}
    (enough : a.size ≤ depth + way.length) : ∃ rest, depth = rest + 1 := by
  have longer := length_le_size (h.through acyclic live).1 (h.through acyclic live).2
  rw [List.length_cons] at longer
  exact Nat.exists_eq_succ_of_ne_zero (by omega)

end WayTo

/-- The bound on the depth is not met: with as many levels left as there are nodes off the way to
    `r`, the walk is complete. -/
theorem walkWithin_visits {a : Arena} (acyclic : a.Acyclic) (enter : Node → Bool) (depth : Nat)
    (way : List NodeRef) (r : NodeRef) (h : a.WayTo way r) (enough : a.size ≤ depth + way.length) :
    PrunedVisits a enter [r] (a.walkWithin enter depth r) := by
  induction depth generalizing way r with
  | zero =>
      cases here : a.node? r with
      | none => exact .dangling here .done
      | some n =>
          obtain ⟨rest, more⟩ := h.room acyclic (by simp [here]) enough
          cases more
  | succ depth ih =>
      cases here : a.node? r with
      | none =>
          simp only [walkWithin, here]
          exact .dangling here .done
      | some n =>
          simp only [walkWithin, here]
          cases entered : enter n with
          | false => exact .skip here entered .done
          | true =>
              refine .enter here entered ?_
              rw [List.append_nil, children_of_node here]
              apply PrunedVisits.flatMap
              intro c child
              have step : a.HasChild r c := by rwa [HasChild, children_of_node here]
              refine ih (r :: way) c (h.step acyclic (by simp [here]) step) ?_
              rw [List.length_cons]
              omega

/-- Without a cycle the walk below a place is its depth-first walk. -/
theorem walk_pruned {a : Arena} (acyclic : a.Acyclic) (enter : Node → Bool) (r : NodeRef) :
    PrunedVisits a enter [r] (a.walk enter r) :=
  walkWithin_visits acyclic enter a.size [] r (.start a r) (Nat.le_refl _)

theorem walk_visits {a : Arena} (acyclic : a.Acyclic) (r : NodeRef) :
    Visits a [r] (a.walk (fun _ => true) r) :=
  Visits.iff_pruned.mpr (walk_pruned acyclic _ r)

/-- What a walk meets is reached from where it starts. -/
theorem reaches_of_mem_walkWithin {a : Arena} {enter : Node → Bool} {depth : Nat} {r z : NodeRef}
    (h : z ∈ a.walkWithin enter depth r) : a.Reaches r z := by
  induction depth generalizing r with
  | zero => simp [walkWithin] at h
  | succ depth ih =>
      cases here : a.node? r with
      | none => simp [walkWithin, here] at h
      | some n =>
          simp only [walkWithin, here] at h
          split at h
          · rcases List.mem_cons.mp h with rfl | below
            · exact .refl
            · obtain ⟨c, child, below⟩ := List.mem_flatMap.mp below
              have step : a.HasChild r c := by rwa [HasChild, children_of_node here]
              exact .head step (ih below)
          · simp at h

/-- What a walk meets is a node, and in a nested arena it lies inside the node it starts from. -/
theorem inside_of_mem_walkWithin {a : Arena} (nested : a.Nested) {enter : Node → Bool}
    {depth : Nat} {r z : NodeRef} {n : Node} (here : a.node? r = some n)
    (h : z ∈ a.walkWithin enter depth r) :
    ∃ m, a.node? z = some m ∧ n.start ≤ m.start ∧ m.stop ≤ n.stop := by
  induction depth generalizing r n with
  | zero => simp [walkWithin] at h
  | succ depth ih =>
      simp only [walkWithin, here] at h
      split at h
      · rcases List.mem_cons.mp h with rfl | below
        · exact ⟨n, here, Nat.le_refl _, Nat.le_refl _⟩
        · obtain ⟨c, child, below⟩ := List.mem_flatMap.mp below
          cases there : a.node? c with
          | none => cases depth <;> simp [walkWithin, there] at below
          | some k =>
              have outer := nested r n here c k (by rwa [children_of_node here]) there
              obtain ⟨m, found, start, stop⟩ := ih there below
              exact ⟨m, found, by omega, by omega⟩
      · simp at h

/-- Leaving out subtrees of which nothing is collected changes nothing of what is collected. -/
theorem flatMap_pruned {β : Type} {a : Arena} (enter : Node → Bool) (collect : NodeRef → List β)
    (silent : ∀ r n depth, a.node? r = some n → enter n = false →
      ∀ z ∈ a.walkWithin (fun _ => true) depth r, collect z = []) (depth : Nat) (r : NodeRef) :
    (a.walkWithin enter depth r).flatMap collect =
      (a.walkWithin (fun _ => true) depth r).flatMap collect := by
  induction depth generalizing r with
  | zero => rfl
  | succ depth ih =>
      cases here : a.node? r with
      | none => simp only [walkWithin, here]
      | some n =>
          cases entered : enter n with
          | true =>
              simp only [walkWithin, here, entered, if_true, List.flatMap_cons, List.flatMap_assoc,
                ih]
          | false =>
              rw [List.flatMap_eq_nil_iff.mpr (silent r n _ here entered)]
              simp [walkWithin, here, entered]

/-- When no place is listed twice as a child, two places above a third are above one another. -/
theorem reaches_total {a : Arena} (owner : ∀ p q c, a.HasChild p c → a.HasChild q c → p = q)
    {x y z : NodeRef} (hx : a.Reaches x z) (hy : a.Reaches y z) :
    a.Reaches x y ∨ a.Reaches y x := by
  have up : Relator.RightUnique (Function.swap a.HasChild) := fun c p q hp hq => owner p q c hp hq
  rcases Relation.ReflTransGen.total_of_right_unique up
      (Relation.reflTransGen_swap.mpr hx) (Relation.reflTransGen_swap.mpr hy) with h | h
  · exact .inr (Relation.reflTransGen_swap.mp h)
  · exact .inl (Relation.reflTransGen_swap.mp h)

/-- Two different children of a node have nothing below them in common. -/
theorem siblings_apart {a : Arena} (acyclic : a.Acyclic)
    (owner : ∀ p q c, a.HasChild p c → a.HasChild q c → p = q) {r x y z : NodeRef}
    (hx : a.HasChild r x) (hy : a.HasChild r y) (different : x ≠ y)
    (zx : a.Reaches x z) (zy : a.Reaches y z) : False := by
  have noPath : ∀ {s t}, a.HasChild r s → a.HasChild r t → s ≠ t → ¬ a.Reaches s t := by
    intro s t hs ht unequal reached
    rcases Relation.ReflTransGen.cases_tail reached with same | ⟨p, before, last⟩
    · exact unequal same.symm
    · rw [owner p r t last ht] at before
      exact acyclic r (.head' hs before)
  rcases reaches_total owner zx zy with h | h
  · exact noPath hx hy different h
  · exact noPath hy hx different.symm h

/-- In a forest no walk meets a place twice. -/
theorem walkWithin_nodup {a : Arena} (acyclic : a.Acyclic)
    (owner : ∀ p q c, a.HasChild p c → a.HasChild q c → p = q)
    (once : ∀ p, (a.children p).Nodup) (enter : Node → Bool) (depth : Nat) (r : NodeRef) :
    (a.walkWithin enter depth r).Nodup := by
  induction depth generalizing r with
  | zero => exact .nil
  | succ depth ih =>
      cases here : a.node? r with
      | none => simp [walkWithin, here]
      | some n =>
          have step : ∀ {c}, c ∈ a.childrenOf n → a.HasChild r c := by
            intro c child
            rwa [HasChild, children_of_node here]
          simp only [walkWithin, here]
          split
          · refine List.nodup_cons.mpr ⟨?_, List.nodup_flatMap.mpr ⟨fun c _ => ih c, ?_⟩⟩
            · intro again
              obtain ⟨c, child, below⟩ := List.mem_flatMap.mp again
              exact acyclic r (.head' (step child) (reaches_of_mem_walkWithin below))
            · have children := once r
              rw [children_of_node here] at children
              refine children.imp_of_mem ?_
              intro x y hx hy different z zx zy
              exact siblings_apart acyclic owner (step hx) (step hy) different
                (reaches_of_mem_walkWithin zx) (reaches_of_mem_walkWithin zy)
          · exact .nil

end ParameterHints.Arena
