import ParameterHints.Proofs.Syntax.Narrow

/-! # Trees of a construction

What can be said of a finished tree without a word on how it came about.
-/

namespace ParameterHints.SyntaxTree

/-- The nodes of a tree cover its text like nested intervals, and they are a forest. -/
structure Sound (t : SyntaxTree) : Prop where
  covered : ∀ r n, t.arena.node? r = some n →
    n.start ≤ n.stop ∧ n.stop ≤ t.source.utf8ByteSize ∧
      Text.IsBoundary t.source.toList n.start ∧ Text.IsBoundary t.source.toList n.stop
  nested : ∀ p n, t.arena.node? p = some n → ∀ c ∈ t.arena.children p,
    ∃ m, t.arena.node? c = some m ∧ n.start ≤ m.start ∧ m.stop ≤ n.stop
  ordered : ∀ p, (t.arena.children p).Pairwise fun c d =>
    ∀ n m, t.arena.node? c = some n → t.arena.node? d = some m → n.stop ≤ m.start
  owned : ∀ p q c, t.arena.HasChild p c → t.arena.HasChild q c → p = q
  once : ∀ p, (t.arena.children p).Nodup
  acyclic : t.arena.Acyclic
  walked : (t.arena.walk (fun _ => true) t.root).Nodup ∧
    ∀ r, r ∈ t.arena.walk (fun _ => true) t.root ↔ t.arena.Reaches t.root r

variable {list : List Item}

/-- The root is the last node that was added. -/
theorem root_ofItems (own : Item.allSelfContained list) :
    ((ofItems list).arena.node? (ofItems list).root).isSome := by
  obtain ⟨n, here, -⟩ := (Draft.finished_built list own).live List.mem_cons_self
  exact Option.isSome_iff_exists.mpr ⟨n, here⟩

theorem reaches_live {a : Arena} {text : List Char} (wf : a.WellFormed text) {r s : NodeRef}
    (live : (a.node? r).isSome) (h : a.Reaches r s) : (a.node? s).isSome := by
  cases h with
  | refl => exact live
  | tail _ step =>
      obtain ⟨-, m, -, here, -⟩ := wf.child step
      exact Option.isSome_iff_exists.mpr ⟨m, here⟩

/-- Well-formed arenas make sound trees. -/
theorem sound_of_wellFormed {t : SyntaxTree} (wf : t.arena.WellFormed t.source.toList)
    (live : (t.arena.node? t.root).isSome) : t.Sound where
  covered r n here := by
    have laid := wf.laid r n here
    have last := laid.stop.le
    rw [Text.byteLength_toList] at last
    exact ⟨wf.start_le_stop here, last, laid.start, laid.stop⟩
  nested p n here c child := by
    obtain ⟨m, there, start, -, stop⟩ := (wf.laid p n here).row.mem Arena.lax_le
      (by rwa [Arena.children_of_node here] at child)
    exact ⟨m, there, start, stop⟩
  ordered p := by
    cases here : t.arena.node? p with
    | none =>
        rw [Arena.children_of_dangling here]
        exact .nil
    | some n =>
        rw [Arena.children_of_node here]
        exact (wf.laid p n here).row.pairwise Arena.lax_le
  owned := wf.owner
  once := wf.once
  acyclic := wf.acyclic
  walked := by
    refine ⟨Arena.walkWithin_nodup wf.acyclic wf.owner wf.once _ _ _, fun r => ?_⟩
    rw [(Arena.walk_visits wf.acyclic t.root).mem_iff]
    simp only [List.mem_singleton, exists_eq_left]
    exact ⟨fun h => h.2, fun h => ⟨reaches_live wf live h, h⟩⟩

/-- A tree of fewer than 2 ^ 32 bytes and 2 ^ 32 - 1 nodes is constructed in 32 bits without
    stopping, and it is sound, however its closures were attached. -/
theorem ofItems_sound (list : List Item) (own : Item.allSelfContained list)
    (bytes : (ofItems list).source.utf8ByteSize < 2 ^ 32)
    (nodes : (ofItems list).arena.size < 2 ^ 32 - 1) :
    (Narrow.sourceFile list).run' Draft.empty = .ok (ofItems list) ∧ (ofItems list).Sound :=
  ⟨Narrow.run_sourceFile own (Nat.le_of_lt_succ bytes) (Nat.le_of_lt nodes),
    sound_of_wellFormed (wellFormed_ofItems list own) (root_ofItems own)⟩

/-- Two closures behind a call, with a call inside the first. -/
def closuresInClosures : List Item :=
  [.text "é\r\n",
    .statement (.trailing (.trailing (.call "a.b" [.named "" (.string ""), .number ""])
      [.statement (.trailing (.call "" []) [])]) [.unlisted (.identifier "x")])]

theorem closuresInClosures_sound :
    (Narrow.sourceFile closuresInClosures).run' Draft.empty = .ok (ofItems closuresInClosures) ∧
      (ofItems closuresInClosures).Sound :=
  ofItems_sound closuresInClosures rfl (by decide +kernel) (by decide +kernel)

end ParameterHints.SyntaxTree
