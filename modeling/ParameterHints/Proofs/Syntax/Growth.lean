import ParameterHints.Proofs.Syntax.Operations
import ParameterHints.Syntax.Builder

/-! # Growth of a draft

What one stretch of construction leaves behind: longer text, more nodes, and a row of places that
are still nobody's children. Stretches that follow one another make a longer one, and a node over
all the loose places takes them in.
-/

namespace ParameterHints.Draft

@[simp] theorem text_write (d : Draft) (text : String) :
    (d.write text).source.toList = d.source.toList ++ text.toList := by
  simp [write]

theorem offset_eq (d : Draft) : d.offset = Text.byteLength d.source.toList := by
  rw [Text.byteLength_toList, offset]

theorem offset_write (d : Draft) (text : String) :
    (d.write text).offset = d.offset + Text.byteLength text.toList := by
  rw [offset_eq, offset_eq, text_write, Text.byteLength_append]

theorem boundary (d : Draft) : Text.IsBoundary d.source.toList d.offset := by
  rw [offset_eq]
  exact Text.IsBoundary.length _

/-- No node but a call has parts that are laid out as those of a call. -/
theorem callLaid_of_kind {a : Arena} {text : List Char} {x : NewNode} (kind : x.kind ≠ .call)
    (c : Call) (h : (a.add x).call? (a.newHeader x) = some c) :
    a.CallLaid text (a.newHeader x) c :=
  absurd (Arena.kind_of_call? h) kind

def WellFormed (d : Draft) : Prop := d.arena.WellFormed d.source.toList

theorem WellFormed.empty : Draft.empty.WellFormed := Arena.WellFormed.empty

theorem WellFormed.write {d : Draft} (wf : d.WellFormed) (text : String) :
    (d.write text).WellFormed := by
  rw [WellFormed, text_write]
  exact Arena.WellFormed.append wf text.toList

/-- `after` continues `before`, and `places` are the new nodes that are nobody's children, in
    order. -/
structure Grown (before : Draft) (places : List NodeRef) (after : Draft) : Prop where
  wellFormed : after.WellFormed
  text : ∃ more, after.source.toList = before.source.toList ++ more
  node : ∀ r n, before.arena.node? r = some n → after.arena.node? r = some n
  /-- Old places are nobody's children unless they were before. -/
  owner : ∀ p c n, before.arena.node? c = some n → after.arena.HasChild p c →
    before.arena.HasChild p c
  row : after.arena.Row (· ≤ ·) before.offset places after.offset
  new : ∀ r ∈ places, before.arena.node? r = none
  loose : ∀ r ∈ places, ∀ p, ¬ after.arena.HasChild p r
  nodup : places.Nodup

/-- `after` continues `before` by one node that starts where `before` ends. -/
structure Built (before : Draft) (place : NodeRef) (after : Draft) : Prop
    extends Grown before [place] after where
  starts : ∀ n, after.arena.node? place = some n → n.start = before.offset

namespace Grown

variable {before middle after : Draft} {places others : List NodeRef}

theorem refl (wf : before.WellFormed) : Grown before [] before where
  wellFormed := wf
  text := ⟨[], by simp⟩
  node _ _ := id
  owner _ _ _ _ := id
  row := Nat.le_refl _
  new := by simp
  loose := by simp
  nodup := .nil

theorem offset_le (g : Grown before places after) : before.offset ≤ after.offset :=
  g.row.bounds Arena.lax_le

theorem size_le (g : Grown before places after) : before.arena.size ≤ after.arena.size := by
  apply Arena.size_le_of_node
  intro i n here
  exact ⟨i, n, Nat.le_refl i, g.node _ n here⟩

/-- The loose places are nodes. -/
theorem live (g : Grown before places after) {r : NodeRef} (member : r ∈ places) :
    ∃ n, after.arena.node? r = some n ∧ before.offset ≤ n.start ∧ n.start ≤ n.stop ∧
      n.stop ≤ after.offset :=
  g.row.mem Arena.lax_le member

theorem append (g : Grown before places middle) (k : Grown middle others after) :
    Grown before (places ++ others) after where
  wellFormed := k.wellFormed
  text := by
    obtain ⟨first, hf⟩ := g.text
    obtain ⟨second, hs⟩ := k.text
    exact ⟨first ++ second, by rw [hs, hf, List.append_assoc]⟩
  node r n here := k.node r n (g.node r n here)
  owner p c n here child := g.owner p c n here (k.owner p c n (g.node c n here) child)
  row := (g.row.congr fun r _ => k.node r).append Arena.lax_le k.row
  new r member := by
    rcases List.mem_append.mp member with first | second
    · exact g.new r first
    · cases here : before.arena.node? r with
      | none => rfl
      | some n => rw [← k.new r second, g.node r n here]
  loose r member p child := by
    rcases List.mem_append.mp member with first | second
    · obtain ⟨n, here, -⟩ := g.live first
      exact g.loose r first p (k.owner p r n here child)
    · exact k.loose r second p child
  nodup := by
    refine List.nodup_append.mpr ⟨g.nodup, k.nodup, ?_⟩
    intro r first s second same
    obtain ⟨n, here, -⟩ := g.live first
    rw [same, k.new s second] at here
    cases here

/-- The last places may be forgotten. -/
theorem left (g : Grown before (places ++ others) after) : Grown before places after where
  wellFormed := g.wellFormed
  text := g.text
  node := g.node
  owner := g.owner
  row := g.row.left Arena.lax_le
  new r member := g.new r (List.mem_append_left _ member)
  loose r member := g.loose r (List.mem_append_left _ member)
  nodup := (List.nodup_append.mp g.nodup).1

theorem written (wf : before.WellFormed) (text : String) :
    Grown before [] (before.write text) where
  wellFormed := wf.write text
  text := ⟨text.toList, text_write before text⟩
  node _ _ := id
  owner _ _ _ _ := id
  row := by
    rw [offset_write]
    exact Nat.le_add_right _ _
  new := by simp
  loose := by simp
  nodup := .nil

theorem write (g : Grown before places after) (text : String) :
    Grown before places (after.write text) := by
  simpa using g.append (written g.wellFormed text)

/-- One node that begins where the draft ended, is new and is nobody's child. -/
theorem built {place : NodeRef} {n : Node} (wf : after.WellFormed)
    (text : ∃ more, after.source.toList = before.source.toList ++ more)
    (node : ∀ r n, before.arena.node? r = some n → after.arena.node? r = some n)
    (owner : ∀ p c n, before.arena.node? c = some n → after.arena.HasChild p c →
      before.arena.HasChild p c)
    (here : after.arena.node? place = some n) (starts : n.start = before.offset)
    (new : before.arena.node? place = none) (loose : ∀ p, ¬ after.arena.HasChild p place) :
    Built before place after where
  wellFormed := wf
  text := text
  node := node
  owner := owner
  row := by
    have last := (Arena.WellFormed.laid wf place n here).stop.le
    rw [← offset_eq] at last
    exact ⟨n, here, Nat.le_of_eq starts.symm, Arena.WellFormed.start_le_stop wf here, last⟩
  new r member := by rwa [List.mem_singleton.mp member]
  loose r member := by rwa [List.mem_singleton.mp member]
  nodup := List.nodup_singleton _
  starts m found := by
    rw [here] at found
    cases found
    exact starts

/-- A node takes in all loose places. -/
theorem wrap (g : Grown before places after) (x : NewNode) (children : x.children = places)
    (row : after.arena.Row (· ≤ ·) (after.arena.spanOf x).start places (after.arena.spanOf x).stop)
    (start : Text.IsBoundary after.source.toList (after.arena.spanOf x).start)
    (stop : Text.IsBoundary after.source.toList (after.arena.spanOf x).stop)
    (call : ∀ c, (after.arena.add x).call? (after.arena.newHeader x) = some c →
      after.arena.CallLaid after.source.toList (after.arena.newHeader x) c)
    (starts : (after.arena.spanOf x).start = before.offset) :
    Built before (after.add x).1 (after.add x).2 := by
  subst children
  have header := Arena.node?_nextRef_add after.arena x
  have absent := Arena.node?_nextRef after.arena
  have notChild : ∀ p, ¬ after.arena.HasChild p after.arena.nextRef := by
    intro p child
    obtain ⟨-, n, -, here, -⟩ := Arena.WellFormed.child g.wellFormed child
    exact Arena.WellFormed.ne_nextRef here rfl
  have wf := Arena.WellFormed.add g.wellFormed x g.nodup g.loose row start stop call
  refine built wf g.text ?_ ?_ header starts ?_ ?_
  · exact fun r n here => Arena.node?_add_of_node x (g.node r n here)
  · intro p c n here child
    rcases (Arena.WellFormed.hasChild_add g.wellFormed x).mp child with ⟨-, member⟩ | old
    · rw [g.new c member] at here
      cases here
    · exact g.owner p c n here old
  · cases here : before.arena.node? after.arena.nextRef with
    | none => exact here
    | some n => exact absurd rfl (Arena.WellFormed.ne_nextRef (g.node _ n here))
  · intro p child
    rcases (Arena.WellFormed.hasChild_add g.wellFormed x).mp child with ⟨-, member⟩ | old
    · obtain ⟨n, here, -⟩ := g.live member
      exact Arena.WellFormed.ne_nextRef here rfl
    · exact notChild p old

/-- A node over everything that was written. -/
theorem cover (g : Grown before places after) (x : NewNode) (children : x.children = places)
    (span : after.arena.spanOf x = ⟨before.offset, after.offset⟩)
    (call : ∀ c, (after.arena.add x).call? (after.arena.newHeader x) = some c →
      after.arena.CallLaid after.source.toList (after.arena.newHeader x) c) :
    Built before (after.add x).1 (after.add x).2 := by
  refine g.wrap x children ?_ ?_ ?_ call ?_ <;> rw [span]
  · exact g.row
  · obtain ⟨more, text⟩ := g.text
    rw [text]
    exact before.boundary.append more
  · exact after.boundary

/-- A node from the first loose place to the end of the last. -/
theorem pair {first second : NodeRef} (b : Built before first middle)
    (k : Built middle second after) (x : NewNode) (children : x.children = [first, second])
    (kind : x.kind ≠ .call)
    (span : ∀ n m, after.arena.node? first = some n → after.arena.node? second = some m →
      after.arena.spanOf x = ⟨n.start, m.stop⟩) :
    Built before (after.add x).1 (after.add x).2 := by
  have g : Grown before [first, second] after := b.toGrown.append k.toGrown
  obtain ⟨n, here, -, orderN, m, there, between, orderM, -⟩ := g.row
  obtain ⟨n', here', -⟩ := b.live List.mem_cons_self
  have same := k.node first n' here'
  rw [here] at same
  cases same
  refine g.wrap x children ?_ ?_ ?_ (callLaid_of_kind kind) ?_ <;> rw [span n m here there]
  · exact ⟨n, here, Nat.le_refl _, orderN, m, there, between, orderM, Nat.le_refl _⟩
  · exact (Arena.WellFormed.laid g.wellFormed first n here).start
  · exact (Arena.WellFormed.laid g.wellFormed second m there).stop
  · exact b.starts n here'

/-- A closure may be attached to a node right before it, and nothing is attached to a node that is
    no call. -/
theorem attach {target closure : NodeRef} {m : Node} (g : Grown before [target, closure] after)
    (starts : ∀ n, after.arena.node? target = some n → n.start = before.offset)
    (there : after.arena.node? closure = some m) (body : m.kind = .closure)
    (nonempty : m.start < m.stop)
    (behind : ∀ n, after.arena.node? target = some n →
      Text.IsSeparated after.source.toList n.stop m.start) :
    Built before target
      { after with arena := (after.arena.attachClosure target closure).2 } := by
  obtain ⟨n, here, -⟩ := g.live List.mem_cons_self
  by_cases kind : n.kind = .call
  · obtain ⟨index, rfl, -⟩ := Arena.index_lt_size here
    have wf : after.arena.WellFormed after.source.toList := g.wellFormed
    have h : Arena.WellFormed.Attachable after.arena after.source.toList index closure n m :=
      ⟨here, there, kind, body, behind n here, nonempty, g.loose _ List.mem_cons_self,
        g.loose _ (List.mem_cons_of_mem _ List.mem_cons_self)⟩
    have now := wf.node?_attach h (some index)
    rw [if_pos rfl] at now
    refine built (wf.attach h) g.text ?_ ?_ now (starts n here) (g.new _ List.mem_cons_self) ?_
    · intro r k old
      have other : r ≠ some index := by
        rintro rfl
        rw [g.new _ List.mem_cons_self] at old
        cases old
      rw [wf.node?_attach h, if_neg other, g.node r k old]
    · intro p c k old child
      rcases (wf.hasChild_attach h).mp child with before | ⟨-, rfl⟩
      · exact g.owner p c k old before
      · rw [g.new c (List.mem_cons_of_mem _ List.mem_cons_self)] at old
        cases old
    · intro p child
      rcases (wf.hasChild_attach h).mp child with old | ⟨-, same⟩
      · exact g.loose _ List.mem_cons_self p old
      · exact Arena.WellFormed.closure_ne_call h same.symm
  · have other : ∀ k, after.arena.node? target = some k → k.kind ≠ .call := by
      intro k found
      rw [here] at found
      cases found
      exact kind
    rw [Arena.attachClosure_other other]
    have kept : Grown before ([target] ++ [closure]) after := g
    exact ⟨kept.left, starts⟩

end Grown

end ParameterHints.Draft
