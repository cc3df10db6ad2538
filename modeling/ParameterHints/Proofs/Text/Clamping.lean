import ParameterHints.Proofs.Text.Lines

/-! # Positions clamped to a text

Any line and any column may be asked for. A column past the end of its line, or inside a surrogate
pair, is taken back to the last place before it, and a line past the last one is taken for the end
of the text. The places that are found so are boundaries of characters, and boundaries are in the
order of their positions.
-/

namespace ParameterHints

namespace Text

@[simp] theorem bytesUpToColumn_zero (line : List Char) : bytesUpToColumn 0 line = 0 := by
  cases line with
  | nil => rfl
  | cons c rest => simp [bytesUpToColumn, Nat.ne_of_gt (unitsOf_pos c)]

/-- A column leads to the end of a plain leading part of its line that is no wider. -/
theorem bytesUpToColumn_split (column : Nat) (line : List Char) :
    ∃ before after, line = before ++ after ∧ Plain before ∧ units before ≤ column ∧
      bytesUpToColumn column line = byteLength before := by
  induction line generalizing column with
  | nil => exact ⟨[], [], rfl, plain_nil, Nat.zero_le _, rfl⟩
  | cons c rest ih =>
      rw [bytesUpToColumn]
      split
      · exact ⟨[], c :: rest, rfl, plain_nil, Nat.zero_le _, rfl⟩
      · next inside =>
          split
          · obtain ⟨before, after, split, plain, narrow, bytes⟩ := ih (column - unitsOf c)
            refine ⟨c :: before, after, ?_, ?_, ?_, ?_⟩
            · rw [split]
              rfl
            · exact List.forall_mem_cons.mpr ⟨by simpa using inside, plain⟩
            · rw [units]
              omega
            · rw [bytes, byteLength_cons]
          · exact ⟨[], c :: rest, rfl, plain_nil, Nat.zero_le _, rfl⟩

theorem Terminated.not_plain {line : List Char} (h : Terminated line) : ¬ Plain line := by
  obtain ⟨content, ending, rfl, -, endings⟩ := h
  intro plain
  rcases endings with rfl | rfl | rfl
  · exact absurd (plain '\n' (by simp)) (by decide)
  · exact absurd (plain '\r' (by simp)) (by decide)
  · exact absurd (plain '\n' (by simp)) (by decide)

theorem Terminated.byteLength_pos {line : List Char} (h : Terminated line) :
    0 < byteLength line := by
  refine Nat.pos_of_ne_zero fun none => h.not_plain ?_
  rw [byteLength_eq_zero none]
  exact plain_nil

/-- Every line above another takes a byte at least. -/
theorem Terminates.length_le {above below : List (List Char)} {line : List Char}
    (h : Terminates (above ++ line :: below)) : above.length ≤ byteLength above.flatten := by
  induction above with
  | nil => exact Nat.zero_le _
  | cons first rest ih =>
      cases more : rest ++ line :: below with
      | nil => simp at more
      | cons second others =>
          rw [List.cons_append, more] at h
          have pos := h.1.byteLength_pos
          have := ih (more ▸ h.2)
          rw [List.length_cons, List.flatten_cons, byteLength_append]
          omega

theorem InLine.boundary {text before after : List Char} {above below : List (List Char)}
    {offset : Nat} (h : InLine text above before after below offset) : IsBoundary text offset :=
  ⟨above.flatten ++ before, after ++ below.flatten, by rw [h.split, List.append_assoc],
    by rw [byteLength_append, h.offset]⟩

/-- The end of a plain leading part of a line is a place in that line. -/
theorem inLine_of_plain {text before after : List Char} {above below : List (List Char)}
    (h : lines text = above ++ (before ++ after) :: below) (plain : Plain before) :
    InLine text above before after below (byteLength above.flatten + byteLength before) := by
  refine ⟨h, rfl, ?_⟩
  cases below with
  | nil => exact .inl rfl
  | cons second rest =>
      have shape := terminates_lines text
      rw [h] at shape
      refine .inr fun none => shape.terminated.not_plain ?_
      rwa [none, List.append_nil]

theorem lineCount_ofText (text : List Char) :
    (LineMap.ofText text).lineCount = (lines text).length := by
  change (lineStarts text).length = _
  rw [lineStarts, ← startsFrom_lines, length_startsFrom]

/-- A line that is counted is there. -/
theorem exists_line {text : List Char} {number : Nat}
    (known : number < (LineMap.ofText text).lineCount) :
    ∃ above line below, lines text = above ++ line :: below ∧ above.length = number := by
  rw [lineCount_ofText] at known
  exact ⟨_, (lines text)[number], (lines text).drop (number + 1), by simp,
    List.length_take_of_le (Nat.le_of_lt known)⟩

/-- Where a column is looked for in a line. -/
theorem offset?_of_line {text line : List Char} {above below : List (List Char)}
    (cut : lines text = above ++ line :: below) (column : Nat) :
    (LineMap.ofText text).offset? ⟨above.length, column⟩ =
      some (byteLength above.flatten + bytesUpToColumn column line) :=
  have start : InLine text above [] line below _ := inLine_of_plain cut plain_nil
  start.offset?_line column

end Text

namespace LineMap

variable {text : List Char} {p : Position}

theorem offset?_eq_none_iff :
    (ofText text).offset? p = none ↔ (ofText text).lineCount ≤ p.line := by
  simp [offset?, lineStart?, lineCount]

theorem known_of_offset? {offset : Nat} (h : (ofText text).offset? p = some offset) :
    p.line < (ofText text).lineCount := by
  refine Nat.lt_of_not_le fun unknown => ?_
  rw [offset?_eq_none_iff.mpr unknown] at h
  cases h

/-- The offset of a position is in its line and not past its column, and no part of the line end
    stands before it. -/
theorem inLine_of_offset? {offset : Nat} (h : (ofText text).offset? p = some offset) :
    ∃ above before after below, above.length = p.line ∧ Text.Plain before ∧
      Text.units before ≤ p.column ∧ Text.InLine text above before after below offset := by
  obtain ⟨above, line, below, cut, length⟩ := Text.exists_line (known_of_offset? h)
  have found := Text.offset?_of_line cut p.column
  obtain ⟨before, after, rfl, plain, narrow, bytes⟩ := Text.bytesUpToColumn_split p.column line
  rw [length, h, bytes] at found
  cases found
  exact ⟨above, before, after, below, length, plain, narrow, Text.inLine_of_plain cut plain⟩

/-- The offset of a position, and the end of the text for a line that is not there. -/
def clampedOffset (m : LineMap) (p : Position) : Nat :=
  (m.offset? p).getD (Text.byteLength m.text)

/-- The place in the text that a position stands for. -/
def clamp (m : LineMap) (p : Position) : Position := m.position (m.clampedOffset p)

theorem boundary_clampedOffset (text : List Char) (p : Position) :
    Text.IsBoundary text ((ofText text).clampedOffset p) := by
  unfold clampedOffset
  cases found : (ofText text).offset? p with
  | none => exact .length text
  | some offset =>
      obtain ⟨_, _, _, _, -, -, -, here⟩ := inLine_of_offset? found
      exact here.boundary

/-- Boundaries of characters are in the order of their positions. -/
theorem position_notAfter_iff {first second : Nat} (h : Text.IsBoundary text first)
    (k : Text.IsBoundary text second) :
    ((ofText text).position first).notAfter ((ofText text).position second) ↔ first ≤ second := by
  constructor
  · intro ordered
    refine Nat.le_of_not_lt fun gt => ?_
    exact (Position.before_iff _ _).mp (position_before k h gt) ordered
  · intro le
    rcases Nat.lt_or_eq_of_le le with lt | rfl
    · rw [Position.notAfter_iff]
      exact (position_before h k lt).imp_right fun same => ⟨same.1, Nat.le_of_lt same.2⟩
    · exact Position.notAfter_refl _

theorem position_before_iff {first second : Nat} (h : Text.IsBoundary text first)
    (k : Text.IsBoundary text second) :
    ((ofText text).position first).before ((ofText text).position second) ↔ first < second := by
  rw [Position.before_iff, position_notAfter_iff k h, Nat.not_le]

/-! ## Offsets of ranges -/

variable {range : PositionRange}

theorem offsets_known (h : range.start.line < (ofText text).lineCount) :
    (ofText text).offsets range =
      ((ofText text).clampedOffset range.start, (ofText text).clampedOffset range.stop) := by
  cases found : (ofText text).offset? range.start with
  | none => exact absurd (offset?_eq_none_iff.mp found) (Nat.not_le_of_lt h)
  | some offset => simp only [offsets, clampedOffset, found, Option.getD_some]

/-- Without a start line a range goes from the start of the text, and to the end of it if its ends
    are in order. -/
theorem offsets_unknown (h : (ofText text).lineCount ≤ range.start.line)
    (ordered : range.start.notAfter range.stop) :
    (ofText text).offsets range = (0, Text.byteLength text) := by
  have past : (ofText text).lineCount ≤ range.stop.line := by
    rw [Position.notAfter_iff] at ordered
    omega
  rw [offsets, offset?_eq_none_iff.mpr h, offset?_eq_none_iff.mpr past]
  rfl

/-- The range of everything goes through the whole text. -/
theorem offsets_everything (short : Text.byteLength text ≤ maxOffset) :
    (ofText text).offsets .everything = (0, Text.byteLength text) := by
  have first : 0 < (ofText text).lineCount := Nat.succ_pos _
  rw [offsets_known first, Prod.mk.injEq]
  constructor
  · cases cut : Text.lines text with
    | nil => exact absurd cut (Text.terminates_lines text).ne_nil
    | cons line below =>
        have whole : Text.lines text = [] ++ line :: below := cut
        have found := Text.offset?_of_line whole 0
        rw [Text.bytesUpToColumn_zero] at found
        exact congrArg (Option.getD · _) found
  · refine Nat.le_antisymm (boundary_clampedOffset text _).le ?_
    rw [clampedOffset]
    cases found : (ofText text).offset? PositionRange.everything.stop with
    | none => exact Nat.le_refl _
    | some offset =>
        -- So many lines are there only if each byte of the text ends one.
        obtain ⟨above, before, after, below, line, -, -, here⟩ := inLine_of_offset? found
        have shape := Text.terminates_lines text
        rw [here.lines] at shape
        have taken := shape.length_le
        have place := here.offset
        change above.length = maxOffset at line
        change Text.byteLength text ≤ offset
        omega

end LineMap

end ParameterHints
