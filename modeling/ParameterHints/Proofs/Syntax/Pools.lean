import Mathlib.Data.Option.Basic
import ParameterHints.Proofs.Syntax.Attachment
import ParameterHints.Proofs.Syntax.Narrow

/-! # Headers and pools

Every addition puts a header behind the others and an entry at the end of the pool of its kind, and
an attachment leaves kinds and places as they are. So the headers of a pool point at its entries in
order, each at its own, and no entry is left over. Nothing is promised of what the parts of nodes
are: any places may be given for them.
-/

namespace ParameterHints

/-- The pools of an arena. Both kinds of literal have theirs in common. -/
inductive Pool where
  | identifiers
  | literals
  | references
  | calls
  | namedArguments
  | closures
  | sourceFiles
  deriving DecidableEq

namespace Pool

def size (a : Arena) : Pool → Nat
  | identifiers => a.identifiers.size
  | literals => a.literals.size
  | references => a.references.size
  | calls => a.calls.size
  | namedArguments => a.namedArguments.size
  | closures => a.closures.size
  | sourceFiles => a.sourceFiles.size

/-- Whether there is data for a header when it is asked for as an entry of this pool. -/
def answers (a : Arena) (n : Node) : Pool → Bool
  | identifiers => (a.identifier? n).isSome
  | literals => (a.literal? n).isSome
  | references => (a.reference? n).isSome
  | calls => (a.call? n).isSome
  | namedArguments => (a.namedArgument? n).isSome
  | closures => (a.closure? n).isSome
  | sourceFiles => (a.sourceFile? n).isSome

end Pool

/-- The pool of a kind of node. -/
def NodeKind.pool : NodeKind → Pool
  | .sourceFile => .sourceFiles
  | .identifier => .identifiers
  | .stringLiteral | .numericLiteral => .literals
  | .reference => .references
  | .call => .calls
  | .namedArgument => .namedArguments
  | .closure => .closures

/-- One operation on an arena. -/
inductive ArenaChange where
  | add (x : NewNode)
  | attach (call closure : NodeRef)

namespace ArenaChange

def apply (a : Arena) : ArenaChange → Arena
  | add x => a.add x
  | attach call closure => (a.attachClosure call closure).2

end ArenaChange

namespace Arena

/-- The arena that some operations make of an empty one. -/
def ofChanges (changes : List ArenaChange) : Arena := changes.foldl ArenaChange.apply empty

/-- The places that the headers of a pool point at, in the order of the nodes. -/
def placesIn (a : Arena) (pool : Pool) : List (Option Nat) :=
  (a.nodes.toList.filter (·.kind.pool = pool)).map Node.data

/-- The headers of each pool point at its entries one after another. -/
def Matched (a : Arena) : Prop := ∀ pool : Pool, a.placesIn pool = (List.range (pool.size a)).map some

variable {a : Arena}

theorem poolSize_eq (a : Arena) (kind : NodeKind) : a.poolSize kind = kind.pool.size a := by
  cases kind <;> rfl

/-! ## Operations -/

theorem placesIn_add (a : Arena) (x : NewNode) (pool : Pool) :
    (a.add x).placesIn pool =
      a.placesIn pool ++ if x.kind.pool = pool then [some (pool.size a)] else [] := by
  rw [placesIn, nodes_add, Array.toList_push, List.filter_append, List.map_append, placesIn]
  congr 1
  by_cases own : x.kind.pool = pool
  · subst own
    simp [newHeader, poolSize_eq]
  · simp [newHeader, own]

theorem size_pool_add (a : Arena) (x : NewNode) (pool : Pool) :
    pool.size (a.add x) = pool.size a + if x.kind.pool = pool then 1 else 0 := by
  cases x with
  | literal kind =>
      cases kind <;> cases pool <;>
        simp [Pool.size, add, pushNode, NewNode.kind, LiteralKind.nodeKind, NodeKind.pool]
  | _ => cases pool <;> simp [Pool.size, add, pushNode, NewNode.kind, NodeKind.pool]

/-- What an attachment changes of a header is neither its kind nor its place. -/
theorem placesIn_widen (a : Arena) (index stop : Nat) (pool : Pool) :
    (a.widen index stop).placesIn pool = a.placesIn pool := by
  have labels (a : Arena) : a.placesIn pool =
      ((a.nodes.map fun n => (n.kind, n.data)).toList.filter (·.1.pool = pool)).map Prod.snd := by
    simp [placesIn, List.filter_map, Function.comp_def]
  have same : ((a.widen index stop).nodes.map fun n => (n.kind, n.data)) =
      a.nodes.map fun n => (n.kind, n.data) := by
    refine Array.ext_getElem? fun i => ?_
    rw [widen, Array.getElem?_map, Array.getElem?_map, Array.getElem?_modify]
    split <;> simp [Function.comp_def]
  rw [labels, labels, same]

theorem size_pool_appendClosure (a : Arena) (data : Nat) (closure : NodeRef) (pool : Pool) :
    pool.size (a.appendClosure data closure) = pool.size a := by
  cases pool <;> simp [Pool.size, appendClosure]

namespace Matched

theorem empty : Arena.empty.Matched := fun pool => by cases pool <;> rfl

theorem add (h : a.Matched) (x : NewNode) : (a.add x).Matched := by
  intro pool
  rw [placesIn_add, size_pool_add, h pool]
  split
  · rw [List.range_succ, List.map_append, List.map_singleton]
  · rw [List.append_nil, Nat.add_zero]

theorem widen (h : a.Matched) (index stop : Nat) : (a.widen index stop).Matched :=
  fun pool => (placesIn_widen a index stop pool).trans (h pool)

theorem attachClosure (h : a.Matched) (call closure : NodeRef) :
    (a.attachClosure call closure).2.Matched := by
  unfold Arena.attachClosure
  split
  · split
    · intro pool
      rw [size_pool_appendClosure]
      exact h.widen _ _ pool
    · exact h.widen _ _
  · exact h

theorem apply (h : a.Matched) (change : ArenaChange) : (change.apply a).Matched := by
  cases change with
  | add x => exact h.add x
  | attach call closure => exact h.attachClosure call closure

end Matched

theorem matched_ofChanges (changes : List ArenaChange) : (ofChanges changes).Matched := by
  have run : ∀ a : Arena, a.Matched → (changes.foldl ArenaChange.apply a).Matched := by
    induction changes with
    | nil => exact fun a h => h
    | cons change rest ih => exact fun a h => ih _ (h.apply change)
  exact run _ .empty

/-! ## What matched headers tell -/

namespace Matched

variable {n m : Node}

theorem stored (h : a.Matched) (member : n ∈ a.nodes) : a.Stored n := by
  have place : n.data ∈ a.placesIn n.kind.pool :=
    List.mem_map.mpr ⟨n, List.mem_filter.mpr ⟨Array.mem_toList_iff.mpr member, by simp⟩, rfl⟩
  rw [h n.kind.pool] at place
  obtain ⟨k, inside, data⟩ := List.mem_map.mp place
  exact ⟨k, data.symm, by rw [poolSize_eq]; exact List.mem_range.mp inside⟩

/-- No two nodes of a pool have the same entry. -/
theorem apart (h : a.Matched) {i j : Nat} (first : a.nodes[i]? = some n)
    (second : a.nodes[j]? = some m) (pools : n.kind.pool = m.kind.pool) (same : n.data = m.data) :
    i = j := by
  have distinct : (a.placesIn n.kind.pool).Nodup := by
    rw [h]
    exact List.nodup_range.map (Option.some_injective _)
  rw [placesIn, List.Nodup, List.pairwise_map, List.pairwise_filter,
    List.pairwise_iff_getElem] at distinct
  obtain ⟨inside, rfl⟩ := Array.getElem?_eq_some_iff.mp first
  obtain ⟨inside', rfl⟩ := Array.getElem?_eq_some_iff.mp second
  rcases Nat.lt_trichotomy i j with before | rfl | behind
  · exact absurd same (distinct i j inside inside' before (by simp) (by simp [pools]))
  · rfl
  · exact absurd same.symm (distinct j i inside' inside behind (by simp [pools]) (by simp))

/-- There is data for a header in the pool of its kind, and in no other one. -/
theorem answers_iff (h : a.Matched) (member : n ∈ a.nodes) (pool : Pool) :
    pool.answers a n ↔ pool = n.kind.pool := by
  obtain ⟨k, data, inside⟩ := h.stored member
  obtain ⟨kind, start, stop, place⟩ := n
  subst data
  cases kind <;> simp only [poolSize] at inside <;> cases pool <;>
    simp [Pool.answers, NodeKind.pool, identifier?, literal?, reference?, call?, namedArgument?,
      closure?, sourceFile?, inside]

theorem size_le (h : a.Matched) (pool : Pool) : pool.size a ≤ a.size := by
  have count := congrArg List.length (h pool)
  rw [placesIn, List.length_map, List.length_map, List.length_range] at count
  exact count ▸ List.length_filter_le ..

variable {call closure : NodeRef} {index : Nat}

theorem call_entry (h : a.Matched) (here : a.nodes[index]? = some n) (kind : n.kind = .call) :
    ∃ data record, n.data = some data ∧ a.calls[data]? = some record := by
  obtain ⟨data, place, inside⟩ := h.stored (Array.mem_of_getElem? here)
  rw [kind] at inside
  exact ⟨data, a.calls[data], place, Array.getElem?_eq_getElem inside⟩

/-- A closure is attached to every call. -/
theorem attaches_iff (h : a.Matched) (call closure : NodeRef) :
    (a.attachClosure call closure).1 = true ↔
      (∃ n, a.node? call = some n ∧ n.kind = .call) ∧ (a.node? closure).isSome := by
  have outcome := attachment a call closure
  generalize a.attachClosure call closure = answer at outcome
  cases outcome with
  | refused unfound =>
      refine ⟨nofun, ?_⟩
      rintro ⟨⟨n, here, kind⟩, live⟩
      obtain ⟨m, there⟩ := Option.isSome_iff_exists.mp live
      obtain ⟨index, rfl, here⟩ := Option.bind_eq_some_iff.mp here
      obtain ⟨data, record, place, -⟩ := h.call_entry here kind
      exact absurd ⟨rfl, here, kind, place, there⟩ (unfound index data n m)
  | attached finds _ =>
      refine ⟨fun _ => ⟨⟨_, ?_, finds.kind⟩, ?_⟩, fun _ => rfl⟩
      · rw [finds.place]
        exact finds.here
      · rw [finds.there]
        rfl
  | halfway finds missing =>
      obtain ⟨data, record, place, stored⟩ := h.call_entry finds.here finds.kind
      cases finds.data.symm.trans place
      cases missing.symm.trans stored

/-- The call has one more closure, and no other node holds anything else than before. -/
theorem attaches_one (h : a.Matched) (attached : (a.attachClosure call closure).1 = true) :
    (∃ c, a.callAt? call = some c ∧ (a.attachClosure call closure).2.callAt? call =
        some { c with closures := c.closures ++ [closure] }) ∧
      ∀ r, r ≠ call → (a.attachClosure call closure).2.contentAt? r = a.contentAt? r := by
  obtain ⟨⟨n, here, kind⟩, live⟩ := (h.attaches_iff call closure).mp attached
  obtain ⟨m, there⟩ := Option.isSome_iff_exists.mp live
  obtain ⟨index, rfl, found⟩ := Option.bind_eq_some_iff.mp here
  have stored := h.stored (Array.mem_of_getElem? found)
  obtain ⟨data, record, place, entry⟩ := h.call_entry found kind
  rw [attachClosure_call there here kind place stored]
  have nodes (r : NodeRef) : ((a.widen index m.stop).appendClosure data closure).node? r =
      (a.widen index m.stop).node? r := rfl
  constructor
  · obtain ⟨_, start, stop, _⟩ := n
    subst kind place
    refine ⟨record, ?_, ?_⟩
    · rw [callAt?, here]
      exact entry
    · rw [callAt?, nodes, node?_widen, if_pos rfl, here, Option.map_some, Option.bind_some,
        call?_appendClosure, if_pos rfl]
      exact congrArg (Option.map _) entry
  · intro r other
    have unwidened := node?_widen a index m.stop r
    rw [if_neg other] at unwidened
    rw [contentAt?, nodes, unwidened, ← contentAt?_widen a index m.stop, contentAt?, unwidened]
    refine Option.bind_congr fun k old => content?_appendClosure _ _ _ _ ?_
    intro call same
    obtain ⟨i, rfl, holds⟩ := Option.bind_eq_some_iff.mp old
    refine other (congrArg some (h.apart holds found ?_ (same.trans place.symm)))
    rw [call, kind]

end Matched

theorem size_le_apply (a : Arena) (change : ArenaChange) : a.size ≤ (change.apply a).size := by
  cases change with
  | add x =>
      rw [ArenaChange.apply, size_add]
      exact Nat.le_succ _
  | attach call closure => exact Nat.le_of_eq (size_attachClosure a call closure).symm

theorem size_le_foldl (changes : List ArenaChange) (a : Arena) :
    a.size ≤ (changes.foldl ArenaChange.apply a).size := by
  induction changes generalizing a with
  | nil => exact Nat.le_refl _
  | cons change rest ih => exact Nat.le_trans (size_le_apply a change) (ih _)

end Arena

/-! ## Numbers of 32 bits -/

namespace Narrow

/-- Attach a closure to the call at an index. No place counts as the largest index. -/
def attachClosure (a : Arena) (call closure : NodeRef) : Bool × Arena :=
  a.attachClosure (some (call.getD maxOffset)) closure

def apply (a : Arena) : ArenaChange → Arena
  | .add x => { a.add x with
      nodes := a.nodes.push { a.newHeader x with data := place (a.poolSize x.kind) } }
  | .attach call closure => (attachClosure a call closure).2

def ofChanges (changes : List ArenaChange) : Arena := changes.foldl apply .empty

variable {a : Arena}

theorem attachClosure_eq (few : a.size ≤ maxOffset) (call closure : NodeRef) :
    attachClosure a call closure = a.attachClosure call closure := by
  cases call with
  | some index => rfl
  | none =>
      have past : a.node? (some maxOffset) = none := Array.getElem?_eq_none few
      simp [attachClosure, Arena.attachClosure, past]

theorem apply_eq (matched : a.Matched) (change : ArenaChange)
    (few : (change.apply a).size ≤ maxOffset) : apply a change = change.apply a := by
  cases change with
  | add x =>
      have room : a.size < maxOffset := by
        rw [ArenaChange.apply, Arena.size_add] at few
        exact few
      have pool : a.poolSize x.kind < maxOffset := by
        rw [Arena.poolSize_eq]
        exact Nat.lt_of_le_of_lt (matched.size_le x.kind.pool) room
      have header : { a.newHeader x with data := place (a.poolSize x.kind) } = a.newHeader x := by
        rw [place_of_lt pool]
        rfl
      rw [apply, header, ← Arena.nodes_add]
      rfl
  | attach call closure =>
      rw [ArenaChange.apply, Arena.size_attachClosure] at few
      exact congrArg Prod.snd (attachClosure_eq few call closure)

theorem ofChanges_eq (changes : List ArenaChange)
    (few : (Arena.ofChanges changes).size ≤ maxOffset) :
    ofChanges changes = Arena.ofChanges changes := by
  have run : ∀ a : Arena, a.Matched → (changes.foldl ArenaChange.apply a).size ≤ maxOffset →
      changes.foldl apply a = changes.foldl ArenaChange.apply a := by
    clear few
    induction changes with
    | nil => exact fun _ _ _ => rfl
    | cons change rest ih =>
        intro a matched few
        have first := apply_eq matched change (Nat.le_trans (Arena.size_le_foldl rest _) few)
        rw [List.foldl_cons, List.foldl_cons, first]
        exact ih _ (matched.apply change) few
  exact run _ .empty few

end Narrow

namespace Arena

/-- Nodes and entries of pools belong together one by one, and closures are attached to calls. -/
structure Corresponds (a : Arena) : Prop where
  /-- The headers of each pool point at its entries one after another. -/
  places : ∀ pool : Pool, a.placesIn pool = (List.range (pool.size a)).map some
  /-- A node has data in the pool of its kind, and in no other one. -/
  answers : ∀ n ∈ a.nodes, ∀ pool : Pool, pool.answers a n ↔ pool = n.kind.pool
  /-- No two nodes have the same entry. -/
  apart : ∀ (i j : Nat) (n m : Node), a.nodes[i]? = some n → a.nodes[j]? = some m →
    n.kind.pool = m.kind.pool → n.data = m.data → i = j
  /-- A closure is attached just when it is a node and the call is a call. -/
  attaches : ∀ call closure, (Narrow.attachClosure a call closure).1 = true ↔
    (∃ n, a.node? call = some n ∧ n.kind = .call) ∧ (a.node? closure).isSome
  /-- The call then has one more closure, and no other node holds anything else than before. -/
  attached : ∀ call closure after, Narrow.attachClosure a call closure = (true, after) →
    (∃ c, a.callAt? call = some c ∧
      after.callAt? call = some { c with closures := c.closures ++ [closure] }) ∧
    ∀ r, r ≠ call → after.contentAt? r = a.contentAt? r

/-- Whatever is done to an empty arena, its nodes and its pools correspond, and numbers of 32 bits
    are enough for it. -/
theorem corresponds_ofChanges (changes : List ArenaChange)
    (few : (ofChanges changes).size ≤ maxOffset) :
    Narrow.ofChanges changes = ofChanges changes ∧ (ofChanges changes).Corresponds := by
  have matched := matched_ofChanges changes
  refine ⟨Narrow.ofChanges_eq changes few, matched, fun n member => matched.answers_iff member,
    fun i j n m => matched.apart, ?_, ?_⟩
  · intro call closure
    rw [Narrow.attachClosure_eq few]
    exact matched.attaches_iff call closure
  · intro call closure after outcome
    rw [Narrow.attachClosure_eq few] at outcome
    have effect := matched.attaches_one (congrArg Prod.fst outcome)
    rwa [outcome] at effect

/-- One node of every kind, among them two literals of different kinds and two calls. A closure is
    attached to the second call, and nothing to an identifier, to no place or to a place without a
    node; the last closure to be attached is no node. -/
def crossedChanges : List ArenaChange :=
  [.add (.identifier "f" ⟨0, 1⟩), .add (.literal .string "a" ⟨2, 5⟩),
    .add (.call (some 0) [some 1] ⟨0, 6⟩), .add (.literal .numeric "1" ⟨7, 8⟩),
    .add (.call (some 90) [none] ⟨7, 9⟩), .add (.reference none (some 0)),
    .add (.closure [some 91] ⟨9, 12⟩), .add (.namedArgument (some 0) (some 3)),
    .attach (some 4) (some 6), .attach (some 0) (some 6), .attach none (some 6),
    .attach (some 92) (some 6), .attach (some 2) (some 93),
    .add (.sourceFile [some 2, some 4] ⟨0, 12⟩)]

theorem crossedChanges_correspond :
    (ofChanges crossedChanges).size ≤ maxOffset ∧
    Narrow.ofChanges crossedChanges = ofChanges crossedChanges ∧
    (ofChanges crossedChanges).placesIn .literals = [some 0, some 1] ∧
    (ofChanges crossedChanges).calls =
      #[⟨some 0, [some 1], []⟩, ⟨some 90, [none], [some 6]⟩] ∧
    (Narrow.attachClosure (ofChanges crossedChanges) (some 2) (some 6)).1 = true ∧
    (Narrow.attachClosure (ofChanges crossedChanges) none (some 6)).1 ≠ true := by
  have few : (ofChanges crossedChanges).size ≤ maxOffset := by decide +kernel
  obtain ⟨narrow, corresponds⟩ := corresponds_ofChanges crossedChanges few
  refine ⟨few, narrow, corresponds.places .literals, by decide +kernel, ?_, ?_⟩
  · exact (corresponds.attaches _ _).mpr ⟨⟨_, rfl, rfl⟩, rfl⟩
  · rw [ne_eq, corresponds.attaches]
    rintro ⟨⟨n, here, -⟩, -⟩
    cases here

end Arena

end ParameterHints
