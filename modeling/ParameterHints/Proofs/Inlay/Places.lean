import Mathlib.Data.List.Flatten
import ParameterHints.Proofs.Call.Anchors
import ParameterHints.Proofs.Inlay.ReadingOrder
import ParameterHints.Proofs.Syntax.Construction
import ParameterHints.Proofs.Syntax.Marks
import ParameterHints.Proofs.Text.Lines

/-! # Places of hints

Over a tree that was constructed, the offsets of the hints of a call are marks of the call, so no
offset is met twice on the way through the tree. Offsets of nodes are character boundaries, hence
no position is met twice either.
-/

namespace ParameterHints

namespace Call

theorem positional_sublist (c : Call) (a : Arena) :
    (c.positionalArguments a).Sublist c.allArguments :=
  List.filter_sublist.append (.refl _)

end Call

namespace Table

variable {t : Table} {a : Arena} {text : List Char} {r : NodeRef} {c : Call} {m : Method}
  {bindings : List Binding}

theorem Analysed.node (h : t.Analysed a r c m bindings) :
    ∃ n, a.node? r = some n ∧ a.call? n = some c :=
  Option.bind_eq_some_iff.mp h.call

namespace Analysed

/-- In a call that is laid out the positional arguments start one behind the other. -/
theorem offsets_nodup (h : t.Analysed a r c m bindings) (wf : a.WellFormed text) {n : Node}
    (laid : a.CallLaid text n c) :
    ((t.host.hints a r).map ParameterHint.offset).Nodup := by
  have starts : ((c.positionalArguments a).filterMap fun r => (a.node? r).map Node.start).Pairwise
      (· < ·) := by
    refine List.pairwise_filterMap.mpr ?_
    refine (laid.starts_pairwise.sublist (c.positional_sublist a)).imp ?_
    intro r s apart first hereR second hereS
    obtain ⟨n, foundR, rfl⟩ := Option.map_eq_some_iff.mp hereR
    obtain ⟨m, foundS, rfl⟩ := Option.map_eq_some_iff.mp hereS
    exact Nat.lt_of_le_of_lt (wf.start_le_stop foundR) (apart n m foundR foundS)
  obtain ⟨starting, perm, sublist⟩ := h.offsets_subperm
  exact perm.nodup_iff.mp ((starts.imp Nat.ne_of_lt).sublist sublist)

end Analysed

/-- Where there are hints, there is a call that is laid out, and they are put at the starts of its
    arguments. -/
theorem hints_laid (t : Table) (wf : a.WellFormed text) (r : NodeRef) :
    t.host.hints a r = [] ∨ ∃ n c, a.node? r = some n ∧ a.call? n = some c ∧
      a.CallLaid text n c ∧ ((t.host.hints a r).map ParameterHint.offset).Nodup ∧
      ∀ h ∈ t.host.hints a r, ∃ argument ∈ c.allArguments, ∃ m,
        a.node? argument = some m ∧ h.offset = m.start := by
  rcases t.hints_host a r with silent | ⟨c, m, bindings, analysed⟩
  · exact .inl silent
  · obtain ⟨n, here, call⟩ := analysed.node
    have laid := (wf.laid r n here).call c call
    refine .inr ⟨n, c, here, call, laid, analysed.offsets_nodup wf laid, ?_⟩
    intro h member
    obtain ⟨_, _, _, argument, k, -, -, -, inside, there, rfl⟩ := analysed.mem_hints member
    exact ⟨argument, (c.positional_sublist a).mem inside, k, there, rfl⟩

/-- The hints of calls are put at marks. -/
theorem marked_hints (t : Table) (wf : a.WellFormed text) :
    a.Marked fun r => (t.host.hints a r).map ParameterHint.offset where
  inside r o mark := by
    obtain ⟨h, member, rfl⟩ := List.mem_map.mp mark
    rcases t.hints_laid wf r with silent | ⟨n, c, here, -, laid, -, starts⟩
    · rw [silent] at member
      cases member
    · obtain ⟨argument, inside, m, there, offset⟩ := starts h member
      rw [offset]
      exact ⟨n, here, laid.start_inside wf inside there⟩
  outside r o mark child listed k found := by
    obtain ⟨h, member, rfl⟩ := List.mem_map.mp mark
    rcases t.hints_laid wf r with silent | ⟨n, c, here, call, laid, -, starts⟩
    · rw [silent] at member
      cases member
    · obtain ⟨argument, inside, m, there, offset⟩ := starts h member
      rw [Arena.children_of_node here, Arena.childrenOf_of_call? call] at listed
      rw [offset]
      exact laid.start_outside wf inside there listed found
  nodup r := by
    rcases t.hints_laid wf r with silent | ⟨n, c, -, -, -, nodup, -⟩
    · rw [silent]
      exact .nil
    · exact nodup

end Table

namespace Document

/-- The offsets of the hints of a call, whether or not they are shown. -/
def offsetsOf (d : Document) (r : NodeRef) : List Nat :=
  (d.provider.hints d.arena r).map ParameterHint.offset

theorem positions_callHints (d : Document) (start stop : Nat) (r : NodeRef) :
    ((d.callHints start stop r).map InlayHint.position).Sublist
      ((d.offsetsOf r).map d.lines.position) := by
  unfold callHints
  dsimp only
  split
  · exact List.nil_sublist _
  · rw [List.map_map, offsetsOf, List.map_map]
    simp only [Function.comp_def, inlay_eq]
    exact List.filter_sublist.map _

/-- What is collected stands at the offsets that a walk meets. -/
theorem positions_collect (d : Document) (root : NodeRef) (start stop : Nat) :
    ((d.collect root start stop).map InlayHint.position).Sublist
      (((d.arena.walk (fun n => start ≤ n.stop && n.start ≤ stop) root).flatMap d.offsetsOf).map
        d.lines.position) := by
  rw [collect, List.map_flatMap, List.map_flatMap]
  refine (List.Sublist.flatMap List.filter_sublist _).trans ?_
  exact List.Sublist.flatMap_right _ fun r _ => positions_callHints d start stop r

/-- Hints at different positions are strictly ordered by sorting. -/
theorem hints_before (d : Document) (root : NodeRef) (range : PositionRange)
    (distinct : ∀ start stop, ((d.collect root start stop).map InlayHint.position).Nodup) :
    (d.hints root range).Pairwise fun a b => a.position.before b.position := by
  unfold hints
  split
  · generalize d.lines.offsets range = offsets
    obtain ⟨start, stop⟩ := offsets
    have merged := InlayHint.stablySorted_mergeSort (d.collect root start stop)
    have different := (merged.perm.map InlayHint.position).nodup_iff.mpr (distinct start stop)
    exact (merged.ordered.and (List.pairwise_map.mp different)).imp fun both =>
      Position.before_of_notAfter both.1 both.2
  · exact .nil

end Document

namespace SyntaxTree

/-- A tree opened over a table of declarations. -/
def document (tree : SyntaxTree) (t : Table) (denylist : Denylist) (config : Config) : Document :=
  ⟨tree.arena, .ofText tree.source.toList, t.host.groovyProvider, denylist, config⟩

variable {tree : SyntaxTree}

/-- Marks stand inside the text; those that hints are put at are character boundaries. -/
theorem boundary_offset {t : Table} {denylist : Denylist} {config : Config}
    (wf : tree.arena.WellFormed tree.source.toList) {r : NodeRef} {o : Nat}
    (h : o ∈ (tree.document t denylist config).offsetsOf r) :
    Text.IsBoundary tree.source.toList o := by
  obtain ⟨hint, member, rfl⟩ := List.mem_map.mp h
  have member : hint ∈ t.host.hints tree.arena r := member
  rcases t.hints_laid wf r with silent | ⟨n, c, -, -, -, -, starts⟩
  · rw [silent] at member
    cases member
  · obtain ⟨argument, -, m, there, offset⟩ := starts hint member
    rw [offset]
    exact (wf.laid argument m there).start

/-- No two hints share a place: between nested calls, empty arguments, parameters of one name and
    closures behind a call there is always something written. -/
theorem hints_strictly_ordered (t : Table) (list : List Item) (own : Item.allSelfContained list)
    (denylist : Denylist) (config : Config) (range : PositionRange) :
    (((ofItems list).document t denylist config).hints (ofItems list).root range).Pairwise
      fun a b => a.position.before b.position := by
  have wf := wellFormed_ofItems list own
  refine Document.hints_before _ _ _ fun start stop => ?_
  refine (Document.positions_collect _ _ start stop).nodup ?_
  refine List.Nodup.map_on ?_ ((t.marked_hints wf).nodup_walk wf _ _ _)
  intro x hx y hy same
  obtain ⟨r, -, markX⟩ := List.mem_flatMap.mp hx
  obtain ⟨s, -, markY⟩ := List.mem_flatMap.mp hy
  exact LineMap.position_injective (boundary_offset wf markX) (boundary_offset wf markY) same

/-- One method with a name for two parameters, and varargs. -/
def crowdedTable : Table :=
  Table.empty.addMethod ⟨"f", none,
    [⟨some "x", .object, false⟩, ⟨some "x", .object, false⟩, ⟨some "rest", .object, true⟩],
    .regular⟩

/-- Calls in arguments and in closures behind calls, some arguments without any text. -/
def crowded : List Item :=
  [.text "é\r\n",
    .statement (.trailing
      (.trailing (.call "f" [.call "f" [.identifier "", .string ""], .identifier "", .path ""])
        [.statement (.trailing (.call "f" [.number ""]) [])])
      [.unlisted (.identifier "x")])]

def crowdedDocument : Document := (ofItems crowded).document crowdedTable ⟨[]⟩ .default

/-- What is shown over the crowded text. The walk comes to the outer arguments first. -/
theorem hints_crowded : crowdedDocument.hints (ofItems crowded).root .everything =
    [⟨⟨1, 6⟩, "x: ", none⟩, ⟨⟨1, 11⟩, "x: ", none⟩, ⟨⟨1, 13⟩, "...rest: ", none⟩,
      ⟨⟨1, 21⟩, "x: ", none⟩] := by
  have enabled : crowdedDocument.config.parameterHints = true := rfl
  have whole : crowdedDocument.lines.offsets .everything = (0, 37) := by decide +kernel
  have collected : crowdedDocument.collect (ofItems crowded).root 0 37 =
      [⟨⟨1, 11⟩, "x: ", none⟩, ⟨⟨1, 13⟩, "...rest: ", none⟩, ⟨⟨1, 6⟩, "x: ", none⟩,
        ⟨⟨1, 21⟩, "x: ", none⟩] := by decide +kernel
  rw [Document.hints, if_pos enabled, whole]
  dsimp only
  rw [collected]
  exact InlayHint.mergeSort_eq_of_before (by decide) (by simp [Position.before])

theorem hints_crowded_ordered :
    (crowdedDocument.hints (ofItems crowded).root .everything).map InlayHint.position =
        [⟨1, 6⟩, ⟨1, 11⟩, ⟨1, 13⟩, ⟨1, 21⟩] ∧
      (crowdedDocument.hints (ofItems crowded).root .everything).Pairwise fun a b =>
        a.position.before b.position :=
  ⟨by rw [hints_crowded]; rfl,
    hints_strictly_ordered crowdedTable crowded rfl ⟨[]⟩ .default .everything⟩

end SyntaxTree

end ParameterHints
