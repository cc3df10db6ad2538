import Mathlib.Algebra.Order.BigOperators.Group.List
import Mathlib.Algebra.Order.Group.Nat
import ParameterHints.Proofs.Syntax.WellFormed

/-! # Operations that keep an arena well-formed

A node may be added over a row of places that are nobody's children, and a closure may be attached
to a call when both are nobody's children.
-/

namespace ParameterHints.Arena.WellFormed

variable {a : Arena} {text : List Char}

/-! ## Adding a node -/

theorem children_nextRef_add (a : Arena) (x : NewNode) :
    (a.add x).children a.nextRef = x.children := by
  rw [children_of_node (node?_nextRef_add a x), childrenOf_newHeader]

/-- Every other place keeps its children. -/
theorem children_add (wf : a.WellFormed text) (x : NewNode) {p : NodeRef} (h : p ≠ a.nextRef) :
    (a.add x).children p = a.children p := by
  cases there : (a.add x).node? p with
  | none =>
      cases here : a.node? p with
      | none => rw [children_of_dangling there, children_of_dangling here]
      | some n => rw [node?_add_of_node x here] at there; cases there
  | some n =>
      rcases node?_add_cases there with here | ⟨new, -⟩
      · rw [children_of_node there, children_of_node here, childrenOf_add x (wf.stored p n here)]
      · exact absurd new h

theorem hasChild_add (wf : a.WellFormed text) (x : NewNode) {p c : NodeRef} :
    (a.add x).HasChild p c ↔ p = a.nextRef ∧ c ∈ x.children ∨ a.HasChild p c := by
  by_cases new : p = a.nextRef
  · subst new
    rw [HasChild, children_nextRef_add, HasChild, children_of_dangling (node?_nextRef a)]
    simp
  · rw [HasChild, wf.children_add x new, HasChild]
    simp [new]

theorem ne_nextRef {r : NodeRef} {n : Node} (here : a.node? r = some n) : r ≠ a.nextRef := by
  intro new
  rw [new, node?_nextRef] at here
  cases here

/-- The data of a new node lies behind the data of all others. -/
theorem unshared_add (wf : a.WellFormed text) (x : NewNode) (r s : NodeRef) (n m : Node)
    (hr : (a.add x).node? r = some n) (hs : (a.add x).node? s = some m) (kindN : n.kind = .call)
    (kindM : m.kind = .call) (same : n.data = m.data) : r = s := by
  have apart : ∀ r n, a.node? r = some n → n.kind = x.kind → n.data ≠ (a.newHeader x).data := by
    intro r n here kind same
    obtain ⟨k, data, inside⟩ := wf.stored r n here
    rw [data, newHeader] at same
    cases same
    rw [kind] at inside
    exact Nat.lt_irrefl _ inside
  rcases node?_add_cases hr with oldR | ⟨newR, rfl⟩
  · rcases node?_add_cases hs with oldS | ⟨-, rfl⟩
    · exact wf.unshared r s n m oldR oldS kindN kindM same
    · exact absurd same (apart r n oldR (kindN.trans kindM.symm))
  · rcases node?_add_cases hs with oldS | ⟨newS, -⟩
    · exact absurd same.symm (apart s m oldS (kindM.trans kindN.symm))
    · rw [newR, newS]

theorem owner_add (wf : a.WellFormed text) (x : NewNode)
    (loose : ∀ c ∈ x.children, ∀ p, ¬ a.HasChild p c) (p q c : NodeRef)
    (hp : (a.add x).HasChild p c) (hq : (a.add x).HasChild q c) : p = q := by
  rcases (wf.hasChild_add x).mp hp with ⟨newP, inP⟩ | oldP
  · rcases (wf.hasChild_add x).mp hq with ⟨newQ, -⟩ | oldQ
    · rw [newP, newQ]
    · exact absurd oldQ (loose c inP q)
  · rcases (wf.hasChild_add x).mp hq with ⟨-, inQ⟩ | oldQ
    · exact absurd oldP (loose c inQ p)
    · exact wf.owner p q c oldP oldQ

/-- The new node is put above all of its children. -/
theorem ranked_add (wf : a.WellFormed text) (x : NewNode)
    (live : ∀ c ∈ x.children, ∃ n, a.node? c = some n) :
    ∃ rank : NodeRef → Nat, ∀ p c, (a.add x).HasChild p c → rank c < rank p := by
  obtain ⟨rank, lower⟩ := wf.ranked
  refine ⟨fun r => if r = a.nextRef then (x.children.map rank).sum + 1 else rank r, ?_⟩
  intro p c child
  dsimp only
  rcases (wf.hasChild_add x).mp child with ⟨rfl, member⟩ | before
  · obtain ⟨n, here⟩ := live c member
    rw [if_neg (ne_nextRef here), if_pos rfl]
    exact Nat.lt_succ_of_le (List.le_sum_of_mem (List.mem_map_of_mem member))
  · obtain ⟨n, m, here, there, -⟩ := wf.child before
    rw [if_neg (ne_nextRef there), if_neg (ne_nextRef here)]
    exact lower p c before

/-- A new node over a row of nobody's children keeps an arena well-formed. -/
theorem add (wf : a.WellFormed text) (x : NewNode) (nodup : x.children.Nodup)
    (loose : ∀ c ∈ x.children, ∀ p, ¬ a.HasChild p c)
    (row : a.Row (· ≤ ·) (a.spanOf x).start x.children (a.spanOf x).stop)
    (start : Text.IsBoundary text (a.spanOf x).start)
    (stop : Text.IsBoundary text (a.spanOf x).stop)
    (call : ∀ c, (a.add x).call? (a.newHeader x) = some c → a.CallLaid text (a.newHeader x) c) :
    (a.add x).WellFormed text where
  stored r n here := by
    rcases node?_add_cases here with before | ⟨-, rfl⟩
    · exact stored_add x (wf.stored r n before)
    · exact stored_newHeader a x
  unshared := wf.unshared_add x
  pools kind := by
    have before := wf.pools kind
    have more := poolSize_add_le a x kind
    rw [size_add]
    omega
  laid r n here := by
    have old : ∀ c n, a.node? c = some n → (a.add x).node? c = some n :=
      fun c n => node?_add_of_node x
    rcases node?_add_cases here with before | ⟨-, rfl⟩
    · have stored := wf.stored r n before
      exact (wf.laid r n before).congr (childrenOf_add x stored) (call?_add x stored)
        fun c _ => old c
    · refine ⟨start, stop, ?_, fun c found => ?_⟩
      · rw [childrenOf_newHeader]
        exact row.congr fun c _ => old c
      · exact (call c found).congr fun c _ => old c
  once p := by
    by_cases new : p = a.nextRef
    · rw [new, children_nextRef_add]
      exact nodup
    · rw [wf.children_add x new]
      exact wf.once p
  owner := wf.owner_add x loose
  ranked := by
    refine wf.ranked_add x fun c member => ?_
    obtain ⟨n, here, -⟩ := row.mem lax_le member
    exact ⟨n, here⟩

/-! ## Attaching a closure -/

/-- A call and a closure that are nobody's children, the closure behind the call. -/
structure Attachable (a : Arena) (text : List Char) (index : Nat) (closure : NodeRef)
    (n m : Node) : Prop where
  here : a.node? (some index) = some n
  there : a.node? closure = some m
  call : n.kind = .call
  body : m.kind = .closure
  behind : Text.IsSeparated text n.stop m.start
  nonempty : m.start < m.stop
  loose : ∀ p, ¬ a.HasChild p (some index)
  looseBody : ∀ p, ¬ a.HasChild p closure

section Attachment

variable {index : Nat} {closure : NodeRef} {n m : Node}

theorem closure_ne_call (h : Attachable a text index closure n m) : closure ≠ some index := by
  intro same
  have kind := h.body
  have there := h.there
  rw [same, h.here] at there
  cases there
  rw [h.call] at kind
  cases kind

theorem node?_attach (wf : a.WellFormed text) (h : Attachable a text index closure n m)
    (r : NodeRef) :
    (a.attachClosure (some index) closure).2.node? r =
      if r = some index then some { n with stop := m.stop } else a.node? r := by
  obtain ⟨data, hd, -⟩ := wf.stored _ _ h.here
  rw [attachClosure_call h.there h.here h.call hd (wf.stored _ _ h.here)]
  have later : max n.stop m.stop = m.stop := by
    have := h.behind.lt
    have := h.nonempty
    omega
  change (a.widen index m.stop).node? r = _
  rw [node?_widen]
  split
  · next same =>
      subst same
      simp [h.here, later]
  · rfl

/-- No other call has the data of the call. -/
theorem data_apart (wf : a.WellFormed text) (h : Attachable a text index closure n m) {r : NodeRef}
    {k : Node} (other : r ≠ some index) (found : a.node? r = some k) (kind : k.kind = .call) :
    k.data ≠ n.data := by
  intro same
  exact other (wf.unshared _ _ _ _ found h.here kind h.call same)

theorem call?_attach_other (wf : a.WellFormed text) (h : Attachable a text index closure n m)
    {r : NodeRef} {k : Node} (other : r ≠ some index) (found : a.node? r = some k) :
    (a.attachClosure (some index) closure).2.call? k = a.call? k ∧
      (a.attachClosure (some index) closure).2.childrenOf k = a.childrenOf k := by
  have apart := wf.data_apart h other found
  obtain ⟨data, hd, -⟩ := wf.stored _ _ h.here
  rw [attachClosure_call h.there h.here h.call hd (wf.stored _ _ h.here)]
  rw [hd] at apart
  refine ⟨?_, childrenOf_appendClosure _ _ _ _ apart⟩
  rw [call?_appendClosure]
  split
  · next same =>
      have kind : k.kind ≠ .call := fun kind => apart kind same
      obtain ⟨kind', _, _, _⟩ := k
      cases kind' with
      | call => exact absurd rfl kind
      | _ => rfl
  · rfl

/-- The call has one more child, and its data one more closure. -/
theorem call?_attach_self (wf : a.WellFormed text) (h : Attachable a text index closure n m)
    (stop : Nat) : ∃ c, a.call? n = some c ∧
      (a.attachClosure (some index) closure).2.call? { n with stop := stop } =
        some { c with closures := c.closures ++ [closure] } := by
  obtain ⟨data, hd, inside⟩ := wf.stored _ _ h.here
  rw [attachClosure_call h.there h.here h.call hd (wf.stored _ _ h.here)]
  obtain ⟨kind, first, last, _⟩ := n
  obtain rfl : kind = .call := h.call
  cases hd
  have inside : data < a.calls.size := inside
  refine ⟨a.calls[data], ?_, ?_⟩
  · simp [call?, inside]
  · rw [call?_appendClosure, if_pos rfl]
    simp [call?, widen, inside]

theorem children_attach (wf : a.WellFormed text) (h : Attachable a text index closure n m)
    (r : NodeRef) :
    (a.attachClosure (some index) closure).2.children r =
      if r = some index then a.children r ++ [closure] else a.children r := by
  split
  · next same =>
      subst same
      obtain ⟨c, before, after⟩ := wf.call?_attach_self h m.stop
      have now := wf.node?_attach h (some index)
      rw [if_pos rfl] at now
      rw [children_of_node now, children_of_node h.here, childrenOf_of_call? before,
        childrenOf_of_call? after]
      simp only [Call.allArguments, List.append_assoc, List.cons_append]
  · next other =>
      have now := wf.node?_attach h r
      rw [if_neg other] at now
      cases found : a.node? r with
      | none => rw [children_of_dangling (now.trans found), children_of_dangling found]
      | some k =>
          rw [children_of_node (now.trans found), children_of_node found]
          exact (wf.call?_attach_other h other found).2

theorem hasChild_attach (wf : a.WellFormed text) (h : Attachable a text index closure n m)
    {p c : NodeRef} :
    (a.attachClosure (some index) closure).2.HasChild p c ↔
      a.HasChild p c ∨ p = some index ∧ c = closure := by
  rw [HasChild, wf.children_attach h p, HasChild]
  split
  · next same => simp [same]
  · next other => simp [other]

/-- The call is nobody's child, so the headers of all children are what they were. -/
theorem node?_attach_child (wf : a.WellFormed text) (h : Attachable a text index closure n m)
    {p c : NodeRef} (child : a.HasChild p c) :
    (a.attachClosure (some index) closure).2.node? c = a.node? c := by
  have notCall : c ≠ some index := fun self => h.loose p (self ▸ child)
  rw [wf.node?_attach h, if_neg notCall]

/-- The call is laid out up to the end of the closure. -/
theorem laid_attach_self (wf : a.WellFormed text) (h : Attachable a text index closure n m) :
    (a.attachClosure (some index) closure).2.Laid text { n with stop := m.stop } := by
  obtain ⟨c, before, after⟩ := wf.call?_attach_self h m.stop
  have laid := wf.laid _ _ h.here
  have same : ∀ r ∈ c.callee :: c.allArguments, ∀ k, a.node? r = some k →
      (a.attachClosure (some index) closure).2.node? r = some k := by
    intro r member k found
    have child : a.HasChild (some index) r := by
      rwa [HasChild, children_of_node h.here, childrenOf_of_call? before]
    rw [wf.node?_attach_child h child, found]
  have there : (a.attachClosure (some index) closure).2.node? closure = some m := by
    rw [wf.node?_attach h, if_neg (closure_ne_call h), h.there]
  refine ⟨laid.start, (wf.laid _ _ h.there).stop, ?_, ?_⟩
  · have row := laid.row
    rw [childrenOf_of_call? before] at row
    rw [childrenOf_of_call? after, Call.allArguments, ← List.append_assoc, ← List.cons_append]
    exact (row.congr same).snoc lax_le there (Nat.le_of_lt h.behind.lt)
      (Nat.le_of_lt h.nonempty) (Nat.le_refl _)
  · intro c' found
    rw [after] at found
    cases found
    exact ((laid.call c before).congr same).snoc there h.body h.behind h.nonempty

theorem laid_attach (wf : a.WellFormed text) (h : Attachable a text index closure n m) (r : NodeRef)
    (k : Node) (found : (a.attachClosure (some index) closure).2.node? r = some k) :
    (a.attachClosure (some index) closure).2.Laid text k := by
  rw [wf.node?_attach h] at found
  split at found
  · cases found
    exact wf.laid_attach_self h
  · next other =>
      obtain ⟨data, children⟩ := wf.call?_attach_other h other found
      refine (wf.laid r k found).congr children data fun c member l before => ?_
      have child : a.HasChild r c := by rwa [HasChild, children_of_node found]
      rw [wf.node?_attach_child h child, before]

/-- A header keeps its kind and its place. -/
theorem header_attach (wf : a.WellFormed text) (h : Attachable a text index closure n m)
    {r : NodeRef} {k : Node} (found : (a.attachClosure (some index) closure).2.node? r = some k) :
    ∃ old, a.node? r = some old ∧ old.kind = k.kind ∧ old.data = k.data := by
  rw [wf.node?_attach h] at found
  split at found
  · next self =>
      cases found
      exact ⟨n, self ▸ h.here, rfl, rfl⟩
  · exact ⟨k, found, rfl, rfl⟩

theorem stored_attach (wf : a.WellFormed text) (h : Attachable a text index closure n m)
    (r : NodeRef) (k : Node)
    (found : (a.attachClosure (some index) closure).2.node? r = some k) :
    (a.attachClosure (some index) closure).2.Stored k := by
  obtain ⟨old, before, kind, data⟩ := wf.header_attach h found
  obtain ⟨place, held, inside⟩ := wf.stored r old before
  refine ⟨place, data ▸ held, ?_⟩
  rw [poolSize_attachClosure, ← kind]
  exact inside

theorem unshared_attach (wf : a.WellFormed text) (h : Attachable a text index closure n m)
    (r s : NodeRef) (k l : Node)
    (hr : (a.attachClosure (some index) closure).2.node? r = some k)
    (hs : (a.attachClosure (some index) closure).2.node? s = some l) (kindK : k.kind = .call)
    (kindL : l.kind = .call) (same : k.data = l.data) : r = s := by
  obtain ⟨oldK, beforeK, sameKindK, dataK⟩ := wf.header_attach h hr
  obtain ⟨oldL, beforeL, sameKindL, dataL⟩ := wf.header_attach h hs
  exact wf.unshared r s oldK oldL beforeK beforeL (sameKindK.trans kindK) (sameKindL.trans kindL)
    (dataK.trans (same.trans dataL.symm))

theorem once_attach (wf : a.WellFormed text) (h : Attachable a text index closure n m)
    (p : NodeRef) : ((a.attachClosure (some index) closure).2.children p).Nodup := by
  rw [wf.children_attach h]
  split
  · refine List.nodup_append.mpr ⟨wf.once p, List.nodup_singleton _, ?_⟩
    intro c child d body same
    rw [List.mem_singleton] at body
    exact h.looseBody p (body ▸ same ▸ child)
  · exact wf.once p

theorem owner_attach (wf : a.WellFormed text) (h : Attachable a text index closure n m)
    (p q c : NodeRef) (hp : (a.attachClosure (some index) closure).2.HasChild p c)
    (hq : (a.attachClosure (some index) closure).2.HasChild q c) : p = q := by
  rcases (wf.hasChild_attach h).mp hp with oldP | ⟨rfl, rfl⟩
  · rcases (wf.hasChild_attach h).mp hq with oldQ | ⟨rfl, rfl⟩
    · exact wf.owner p q c oldP oldQ
    · exact absurd oldP (h.looseBody p)
  · rcases (wf.hasChild_attach h).mp hq with oldQ | ⟨rfl, -⟩
    · exact absurd oldQ (h.looseBody q)
    · rfl

/-- The call is put above the closure; nothing has to be below the call itself. -/
theorem ranked_attach (wf : a.WellFormed text) (h : Attachable a text index closure n m) :
    ∃ rank : NodeRef → Nat, ∀ p c,
      (a.attachClosure (some index) closure).2.HasChild p c → rank c < rank p := by
  obtain ⟨rank, lower⟩ := wf.ranked
  refine ⟨fun r => if r = some index then max (rank r) (rank closure + 1) else rank r, ?_⟩
  intro p c child
  dsimp only
  rcases (wf.hasChild_attach h).mp child with before | ⟨rfl, rfl⟩
  · have below := lower p c before
    have notCall : c ≠ some index := fun self => h.loose p (self ▸ before)
    rw [if_neg notCall]
    split
    · exact Nat.lt_of_lt_of_le below (Nat.le_max_left _ _)
    · exact below
  · rw [if_neg (closure_ne_call h), if_pos rfl]
    exact Nat.lt_of_lt_of_le (Nat.lt_succ_self _) (Nat.le_max_right _ _)

/-- Attaching a closure to a call keeps an arena well-formed when both are nobody's children. -/
theorem attach (wf : a.WellFormed text) (h : Attachable a text index closure n m) :
    (a.attachClosure (some index) closure).2.WellFormed text where
  stored := wf.stored_attach h
  unshared := wf.unshared_attach h
  pools kind := by
    rw [poolSize_attachClosure, size_attachClosure]
    exact wf.pools kind
  laid := wf.laid_attach h
  once := wf.once_attach h
  owner := wf.owner_attach h
  ranked := wf.ranked_attach h

end Attachment

end ParameterHints.Arena.WellFormed
