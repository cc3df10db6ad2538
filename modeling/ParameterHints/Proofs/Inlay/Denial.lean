import ParameterHints.Proofs.Denylist.Compilation
import ParameterHints.Proofs.Inlay.Places
import ParameterHints.Proofs.Inlay.Pruning

/-! # Denying more

A denial is a matter of one call. The walk through the tree is the same under every denylist, so a
denylist that denies more takes away the hints of the calls that it denies and nothing else, not
even those of the calls inside them, and the other hints keep their order.
-/

namespace ParameterHints

/-- Every method that is denied is denied by the other denylist too. -/
def Denylist.Within (d wider : Denylist) : Prop := ∀ info, d.denies info → wider.denies info

/-- More patterns deny no less, wherever they stand among the others. -/
theorem Denylist.within_of_subset {texts others : List String} {d wider : Denylist}
    (more : texts ⊆ others) (first : ofPatterns texts = .ok d)
    (second : ofPatterns others = .ok wider) : d.Within wider := by
  intro info denied
  obtain ⟨text, listed, matching⟩ := (denies_iff first).mp denied
  exact (denies_iff second).mpr ⟨text, more listed, matching⟩

namespace Document

def withDenylist (d : Document) (denylist : Denylist) : Document := { d with denylist := denylist }

/-- A denylist lets the call at a place show its hints: the method that is called is not known, or
    it is not denied. -/
def spares (d : Document) (denylist : Denylist) (r : NodeRef) : Bool :=
  (d.provider.methodInfo? d.arena r).all fun info => !denylist.denies info

/-- What a place contributes to the hints of a range. When hints are turned off it is nothing. -/
def shown (d : Document) (range : PositionRange) (r : NodeRef) : List InlayHint :=
  if d.config.parameterHints then
    d.contribution (d.lines.offsets range).1 (d.lines.offsets range).2 r
  else []

/-- The places that a walk meets when it leaves out the nodes that do not touch a range. -/
def Meets (d : Document) (root : NodeRef) (range : PositionRange) (visited : List NodeRef) : Prop :=
  d.arena.PrunedVisits
    (fun n => (d.lines.offsets range).1 ≤ n.stop && n.start ≤ (d.lines.offsets range).2)
    [root] visited

/-- How the hints of a range change under a denylist that denies more, told from the places that are
    met in either case. -/
structure Thins (d : Document) (wider : Denylist) (root : NodeRef) (range : PositionRange)
    (visited : List NodeRef) : Prop where
  before : InlayHint.StablySorted (visited.flatMap (d.shown range)) (d.hints root range)
  after : InlayHint.StablySorted ((visited.filter (d.spares wider)).flatMap (d.shown range))
    ((d.withDenylist wider).hints root range)
  sublist : ((d.withDenylist wider).hints root range).Sublist (d.hints root range)
  kept : ∀ r ∈ visited, d.spares wider r → ∀ h ∈ d.shown range r,
    h ∈ (d.withDenylist wider).hints root range

variable {d : Document} {wider : Denylist} {root : NodeRef} {range : PositionRange}

/-- The hints of a range are what the places that are met show, in reading order. -/
theorem hints_eq_shown (d : Document) {visited : List NodeRef} (acyclic : d.arena.Acyclic)
    (met : d.Meets root range visited) : d.hints root range =
      (visited.flatMap (d.shown range)).mergeSort fun a b => a.position.notAfter b.position := by
  have walked := (Arena.walk_pruned acyclic _ root).unique met
  unfold hints
  dsimp only
  split
  · next enabled =>
      have contributed : d.shown range =
          d.contribution (d.lines.offsets range).1 (d.lines.offsets range).2 :=
        funext fun r => if_pos enabled
      rw [collect, flatMap_callHints, walked, contributed]
  · next disabled =>
      have nothing : visited.flatMap (d.shown range) = [] :=
        List.flatMap_eq_nil_iff.mpr fun r _ => if_neg disabled
      rw [nothing, List.mergeSort_nil]

/-- A call that a wider denylist spares has the hints that it had before, and a denied one has
    none. -/
theorem callHints_withDenylist (within : d.denylist.Within wider) (start stop : Nat) (r : NodeRef) :
    (d.withDenylist wider).callHints start stop r =
      if d.spares wider r then d.callHints start stop r else [] := by
  unfold callHints spares withDenylist
  dsimp only
  cases d.provider.methodInfo? d.arena r with
  | none => rfl
  | some info =>
      cases denied : wider.denies info with
      | true => simp [denied]
      | false =>
          have allowed : d.denylist.denies info = false := by
            by_contra before
            simp [within info (by simpa using before)] at denied
          simp [denied, allowed, inlay]

theorem shown_withDenylist (within : d.denylist.Within wider) (range : PositionRange)
    (r : NodeRef) :
    (d.withDenylist wider).shown range r = if d.spares wider r then d.shown range r else [] := by
  have enabled : (d.withDenylist wider).config = d.config := rfl
  have offsets : (d.withDenylist wider).lines.offsets range = d.lines.offsets range := rfl
  rw [shown, shown, enabled, offsets]
  by_cases call : d.isCall r
  · have called : (d.withDenylist wider).isCall r := call
    rw [← callHints_eq_contribution _ _ _ call, ← callHints_eq_contribution _ _ _ called,
      callHints_withDenylist within]
    split
    · rfl
    · rw [ite_self]
  · have other : ¬ (d.withDenylist wider).isCall r := call
    rw [contribution_of_not_call _ _ _ call, contribution_of_not_call _ _ _ other, ite_self,
      ite_self]

theorem flatMap_shown_withDenylist (within : d.denylist.Within wider) (range : PositionRange)
    (visited : List NodeRef) : visited.flatMap ((d.withDenylist wider).shown range) =
      (visited.filter (d.spares wider)).flatMap (d.shown range) := by
  induction visited with
  | nil => rfl
  | cons r rest ih =>
      rw [List.flatMap_cons, ih, shown_withDenylist within, List.filter_cons]
      split
      · rw [List.flatMap_cons]
      · rw [List.nil_append]

/-- Under a denylist that denies more, what is left of the hints of a range is what the calls show
    that it spares. -/
theorem thins_of_within {visited : List NodeRef} (acyclic : d.arena.Acyclic)
    (within : d.denylist.Within wider) (met : d.Meets root range visited) :
    d.Thins wider root range visited := by
  have before := hints_eq_shown d acyclic met
  have after := hints_eq_shown (d.withDenylist wider) acyclic met
  rw [flatMap_shown_withDenylist within] at after
  refine ⟨?_, ?_, ?_, ?_⟩
  · rw [before]
    exact InlayHint.stablySorted_mergeSort _
  · rw [after]
    exact InlayHint.stablySorted_mergeSort _
  · rw [before, after]
    refine sublist_mergeSort_mergeSort InlayHint.order_trans InlayHint.order_total ?_
    exact List.filter_sublist.flatMap _
  · intro r member spared h shown
    rw [after, List.mem_mergeSort]
    exact List.mem_flatMap.mpr ⟨r, List.mem_filter.mpr ⟨member, spared⟩, shown⟩

/-- A denylist that denies more, such as one that was compiled from more patterns, takes from the
    hints of a range those of the calls that it denies. The others stay, in their order, also where
    they belong to a call inside a denied one. -/
theorem hints_of_wider_denylist (d : Document) (acyclic : d.arena.Acyclic) (root : NodeRef)
    (range : PositionRange) :
    (∃! visited, d.Meets root range visited) ∧
      (∀ wider, d.denylist.Within wider → ∀ visited, d.Meets root range visited →
        d.Thins wider root range visited) ∧
      ∀ texts others wider, texts ⊆ others → Denylist.ofPatterns texts = .ok d.denylist →
        Denylist.ofPatterns others = .ok wider → d.denylist.Within wider := by
  have walked := Arena.walk_pruned acyclic
    (fun n => (d.lines.offsets range).1 ≤ n.stop && n.start ≤ (d.lines.offsets range).2) root
  refine ⟨⟨_, walked, fun other met => met.unique walked⟩, ?_, ?_⟩
  · intro wider within visited met
    exact thins_of_within acyclic within met
  · intro texts others wider more first second
    exact Denylist.within_of_subset more first second

/-- A method of a class, and one that has none. -/
def logTable : Table := .ofChanges
  [.addClass "L", .addMethod ⟨"log", some 0, [⟨some "message", .object, false⟩], .regular⟩,
    .addMethod ⟨"f", none, [⟨some "x", .int, false⟩], .regular⟩]

/-- A call of the one with a call of the other as its argument. -/
def logTree : SyntaxTree := .ofItems [.statement (.call "log" [.call "f" [.number "1"]])]

/-- A second pattern denies the outer call, and the call in its argument keeps its hint. -/
theorem logTree_thinned :
    ∃ denylist wider, Denylist.ofPatterns ["*.println(*)"] = .ok denylist ∧
      Denylist.ofPatterns ["L.*", "*.println(*)"] = .ok wider ∧
      let d := logTree.document logTable denylist .default
      d.arena.Acyclic ∧ (d.spares wider (some 6) = false ∧ d.spares wider (some 5) = true) ∧
        denylist.Within wider ∧ ∃ visited, d.Meets logTree.root .everything visited ∧
          d.Thins wider logTree.root .everything visited := by
  have told : (Denylist.ofPatterns ["L.*", "*.println(*)"]).toOption.map (fun w =>
      let d := logTree.document logTable w .default
      (d.spares w (some 6), d.spares w (some 5))) = some (false, true) := by decide +kernel
  have compiles : (Denylist.ofPatterns ["*.println(*)"]).toOption.isSome := by decide +kernel
  cases first : Denylist.ofPatterns ["*.println(*)"] with
  | error fault =>
      rw [first] at compiles
      cases compiles
  | ok denylist =>
      cases second : Denylist.ofPatterns ["L.*", "*.println(*)"] with
      | error fault =>
          rw [second] at told
          cases told
      | ok wider =>
          rw [second] at told
          have acyclic : logTree.arena.Acyclic := (SyntaxTree.wellFormed_ofItems _ rfl).acyclic
          obtain ⟨⟨visited, met, -⟩, thins, more⟩ :=
            hints_of_wider_denylist (logTree.document logTable denylist .default) acyclic
              logTree.root .everything
          have within := more _ _ _ (List.subset_cons_self _ _) first second
          exact ⟨denylist, wider, rfl, rfl, acyclic, Prod.mk.inj (Option.some.inj told), within,
            visited, met, thins wider within visited met⟩

end Document

end ParameterHints
