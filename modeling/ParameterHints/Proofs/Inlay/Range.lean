import ParameterHints.Proofs.Inlay.Places
import ParameterHints.Proofs.Inlay.Pruning
import ParameterHints.Proofs.Text.Clamping

/-! # Hints in a range

A range asks for the hints whose positions lie in it. The walk and the choice among the hints of a
call compare byte offsets, while the range is given in lines and columns; the two agree because
hints stand at boundaries of characters. A range that starts past the last line is an exception: it
is taken from the start of the text.
-/

namespace ParameterHints

/-- Leaving hints out of a stable sorting leaves a stable sorting. -/
theorem InlayHint.StablySorted.filter {hints sorted : List InlayHint}
    (h : StablySorted hints sorted) (keep : InlayHint → Bool) :
    StablySorted (hints.filter keep) (sorted.filter keep) where
  perm := h.perm.filter keep
  ordered := h.ordered.filter keep
  ties p := by rw [List.filter_comm, h.ties, List.filter_comm]

/-- Whether a position lies between the ends of a range, which are clamped to the text. -/
def LineMap.within (m : LineMap) (range : PositionRange) (p : Position) : Bool :=
  (m.clamp range.start).notAfter p && p.notAfter (m.clamp range.stop)

namespace Document

variable {d : Document}

/-- A choice by position that agrees with one by offset picks the same hints of a place. -/
theorem contribution_filter (keep : Position → Bool) {start stop first last : Nat} {r : NodeRef}
    (agrees : ∀ o ∈ d.offsetsOf r, (first ≤ o ∧ o ≤ last) ∧
      (keep (d.lines.position o) ↔ start ≤ o ∧ o ≤ stop)) :
    d.contribution start stop r =
      (d.contribution first last r).filter fun h => keep h.position := by
  unfold contribution
  split
  · dsimp only
    split
    · rw [List.filter_filterMap]
      refine List.filterMap_congr fun h member => ?_
      obtain ⟨inside, same⟩ := agrees h.offset (List.mem_map_of_mem member)
      rw [if_pos inside, Option.filter_some]
      exact if_congr same.symm rfl rfl
    · rfl
  · rfl

/-- When a choice by position agrees with the offsets of a range, the hints of the range are those
    of a wider one that are chosen. -/
theorem hints_filter (keep : Position → Bool) (nested : d.arena.Nested) (inside : d.HintsInside)
    (root : NodeRef) {range wider : PositionRange}
    (agrees : ∀ r, ∀ o ∈ d.offsetsOf r,
      ((d.lines.offsets wider).1 ≤ o ∧ o ≤ (d.lines.offsets wider).2) ∧
        (keep (d.lines.position o) ↔
          (d.lines.offsets range).1 ≤ o ∧ o ≤ (d.lines.offsets range).2)) :
    d.hints root range = (d.hints root wider).filter fun h => keep h.position := by
  unfold hints
  split
  · have collected : ∀ places : List NodeRef,
        places.flatMap (d.contribution (d.lines.offsets range).1 (d.lines.offsets range).2) =
          (places.flatMap (d.contribution (d.lines.offsets wider).1
            (d.lines.offsets wider).2)).filter fun h => keep h.position := by
      intro places
      rw [List.filter_flatMap]
      exact congrArg (places.flatMap ·) (funext fun r => contribution_filter keep (agrees r))
    dsimp only
    rw [collect_eq_contributions nested inside, collect_eq_contributions nested inside, collected]
    exact ((InlayHint.stablySorted_iff _ _).mp
      ((InlayHint.stablySorted_mergeSort _).filter _)).symm
  · rfl

end Document

namespace SyntaxTree

variable {list : List Item} {t : Table} {denylist : Denylist} {config : Config}

/-- The hints of a call are put strictly inside the call. -/
theorem hintsInside_ofItems (own : Item.allSelfContained list) :
    ((ofItems list).document t denylist config).HintsInside := by
  intro r n here _ h member
  obtain ⟨m, there, low, high⟩ := (t.marked_hints (wellFormed_ofItems list own)).inside r h.offset
    (List.mem_map_of_mem member)
  obtain rfl : n = m := Option.some.inj (here.symm.trans there)
  exact ⟨Nat.le_of_lt low, Nat.le_of_lt high⟩

/-- A range whose start line is there has the hints between its clamped ends. A range that starts
    past the last line has all hints, as if it started with the text. -/
theorem hints_of_range (t : Table) (list : List Item) (own : Item.allSelfContained list)
    (bytes : (ofItems list).source.utf8ByteSize < 2 ^ 32) (denylist : Denylist) (config : Config)
    (range : PositionRange) (ordered : range.start.notAfter range.stop) :
    let d := (ofItems list).document t denylist config
    (range.start.line < d.lines.lineCount →
      d.hints (ofItems list).root range = (d.hints (ofItems list).root .everything).filter
        fun h => d.lines.within range h.position) ∧
    (d.lines.lineCount ≤ range.start.line →
      d.hints (ofItems list).root range = d.hints (ofItems list).root .everything) := by
  intro d
  have short : Text.byteLength (ofItems list).source.toList ≤ maxOffset := by
    rw [Text.byteLength_toList]
    exact Nat.le_of_lt_succ bytes
  have whole : d.lines.offsets .everything = (0, Text.byteLength (ofItems list).source.toList) :=
    LineMap.offsets_everything short
  have wf := wellFormed_ofItems list own
  constructor
  · intro known
    refine Document.hints_filter (d.lines.within range) wf.nested (hintsInside_ofItems own) _
      fun r o mark => ?_
    have boundary := boundary_offset wf mark
    have ends : d.lines.offsets range = _ := LineMap.offsets_known known
    rw [whole, ends]
    refine ⟨⟨Nat.zero_le o, boundary.le⟩, ?_⟩
    rw [LineMap.within, Bool.and_eq_true]
    exact and_congr
      (LineMap.position_notAfter_iff (LineMap.boundary_clampedOffset _ _) boundary)
      (LineMap.position_notAfter_iff boundary (LineMap.boundary_clampedOffset _ _))
  · intro unknown
    have same : d.lines.offsets range = d.lines.offsets .everything :=
      (LineMap.offsets_unknown unknown ordered).trans whole.symm
    unfold Document.hints
    rw [same]

theorem hints_crowded_of_range :
    let range : PositionRange := ⟨⟨0, 9⟩, ⟨1, 12⟩⟩
    Item.allSelfContained crowded ∧ (ofItems crowded).source.utf8ByteSize < 2 ^ 32 ∧
      range.start.notAfter range.stop ∧ range.start.line < crowdedDocument.lines.lineCount ∧
      crowdedDocument.hints (ofItems crowded).root range =
        (crowdedDocument.hints (ofItems crowded).root .everything).filter
          (fun h => crowdedDocument.lines.within range h.position) ∧
      crowdedDocument.hints (ofItems crowded).root range =
        [⟨⟨1, 6⟩, "x: ", none⟩, ⟨⟨1, 11⟩, "x: ", none⟩] := by
  intro range
  have short : (ofItems crowded).source.utf8ByteSize < 2 ^ 32 := by decide +kernel
  have known : range.start.line < crowdedDocument.lines.lineCount := by decide +kernel
  have within : crowdedDocument.hints (ofItems crowded).root range =
      (crowdedDocument.hints (ofItems crowded).root .everything).filter
        fun h => crowdedDocument.lines.within range h.position :=
    (hints_of_range crowdedTable crowded rfl short ⟨[]⟩ .default range rfl).1 known
  refine ⟨rfl, short, rfl, known, within, ?_⟩
  rw [within, hints_crowded]
  decide +kernel

/-- One method with one parameter. -/
def singleTable : Table :=
  Table.empty.addMethod ⟨"f", none, [⟨some "a", .object, false⟩], .regular⟩

/-- One call on the only line. -/
def singleCall : List Item := [.statement (.call "f" [.number "1"])]

/-- A range behind the only line has a hint that is placed before it. -/
theorem hints_past_last_line :
    let d := (ofItems singleCall).document singleTable ⟨[]⟩ .default
    let range : PositionRange := ⟨⟨1, 0⟩, ⟨1, 0⟩⟩
    Item.allSelfContained singleCall ∧ (ofItems singleCall).source.utf8ByteSize < 2 ^ 32 ∧
      range.start.notAfter range.stop ∧
      (∃ h ∈ d.hints (ofItems singleCall).root range, h.position = ⟨0, 2⟩) ∧
      d.hints (ofItems singleCall).root range ≠
        (d.hints (ofItems singleCall).root .everything).filter
          fun h => d.lines.within range h.position := by
  decide +kernel

end SyntaxTree

end ParameterHints
