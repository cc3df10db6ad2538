import ParameterHints.Proofs.Text.Lines

/-! # From offsets to positions and back

An offset comes back from its position, with one exception: the column of an offset between a
carriage return and its line feed counts the carriage return, which is no part of the content of
the line. Such an offset comes back as the end of that content.
-/

namespace ParameterHints

namespace Text

/-- `offset` is between a carriage return and the line feed right after it. -/
def InsideLineEnd (text : List Char) (offset : Nat) : Prop :=
  ∃ before after, text = before ++ '\r' :: '\n' :: after ∧ byteLength before + 1 = offset

/-- A line has no line end up to `offset`, and there it is at its end. -/
def ContentEnds (text : List Char) (line offset : Nat) : Prop :=
  ∃ above content rest, text = above ++ (content ++ rest) ∧
    (LineMap.ofText text).lineStart? line = some (byteLength above) ∧ Plain content ∧
    byteLength above + byteLength content = offset ∧ ∀ c, rest.head? = some c → isLineEnd c

/-- A line that is not the first starts right behind a character that ends one. -/
theorem ended_of_mem_laterLineStarts {start offset : Nat} {text : List Char}
    (h : start ∈ laterLineStarts offset text) :
    ∃ before c after, text = before ++ c :: after ∧
      (c = '\n' ∨ (c = '\r' ∧ after.head? ≠ some '\n')) ∧
      offset + byteLength before + c.utf8Size = start := by
  induction text generalizing offset with
  | nil => simp [laterLineStarts] at h
  | cons first rest ih =>
      have behind (later : start ∈ laterLineStarts (offset + first.utf8Size) rest) :
          ∃ before c after, first :: rest = before ++ c :: after ∧
            (c = '\n' ∨ (c = '\r' ∧ after.head? ≠ some '\n')) ∧
            offset + byteLength before + c.utf8Size = start := by
        obtain ⟨before, c, after, split, ending, place⟩ := ih later
        refine ⟨first :: before, c, after, by rw [split]; rfl, ending, ?_⟩
        rw [byteLength_cons]
        omega
      rw [laterLineStarts] at h
      split at h
      · next ending =>
          rcases List.mem_cons.mp h with rfl | later
          · exact ⟨[], first, rest, rfl, ending, rfl⟩
          · exact behind later
      · exact behind h

namespace InsideLineEnd

variable {text : List Char} {offset : Nat}

/-- What stands in front of such an offset is the carriage return. -/
theorem before (h : InsideLineEnd text offset) {front rest : List Char}
    (split : text = front ++ rest) (place : byteLength front = offset) :
    front.getLast? = some '\r' ∧ rest.head? = some '\n' := by
  obtain ⟨first, after, shape, length⟩ := h
  have both : front ++ rest = (first ++ ['\r']) ++ '\n' :: after := by
    rw [← split, shape]
    simp
  have bytes : byteLength front = byteLength (first ++ ['\r']) := by
    rw [place, ← length, byteLength_append]
    rfl
  obtain rfl := before_unique both bytes
  obtain rfl := List.append_cancel_left both
  simp

/-- No line starts inside a line end. -/
theorem not_start (h : InsideLineEnd text offset) : offset ∉ (LineMap.ofText text).starts := by
  intro start
  rcases List.mem_cons.mp start with rfl | later
  · obtain ⟨_, _, -, length⟩ := h
    omega
  · obtain ⟨front, c, rest, split, ending, place⟩ := ended_of_mem_laterLineStarts later
    have cut : text = (front ++ [c]) ++ rest := by simpa using split
    have bytes : byteLength (front ++ [c]) = offset := by simpa using place
    obtain ⟨carriage, feed⟩ := h.before cut bytes
    rw [List.getLast?_concat] at carriage
    cases carriage
    rcases ending with new | ⟨-, alone⟩
    · exact absurd new (by decide)
    · exact alone feed

end InsideLineEnd

/-- A column behind the content of a line leads to the end of the content. -/
theorem bytesUpToColumn_past {content : List Char} (plain : Plain content) {c : Char}
    (ending : isLineEnd c) (rest : List Char) {column : Nat} (past : units content ≤ column) :
    bytesUpToColumn column (content ++ c :: rest) = byteLength content := by
  induction content generalizing column with
  | nil => simp [bytesUpToColumn, ending]
  | cons first others ih =>
      obtain ⟨here, later⟩ := List.forall_mem_cons.mp plain
      rw [units] at past
      have fits : unitsOf first ≤ column := by omega
      have left : units others ≤ column - unitsOf first := by omega
      simp [bytesUpToColumn, here, fits, ih later left]

namespace InLine

variable {text before after : List Char} {above below : List (List Char)} {offset : Nat}

/-- An offset with only content before it in its line is not inside a line end. -/
theorem not_inside (h : InLine text above before after below offset) (plain : Plain before) :
    ¬ InsideLineEnd text offset := by
  intro inside
  rcases List.eq_nil_or_concat before with rfl | ⟨front, c, rfl⟩
  · apply inside.not_start
    have start := h.lineStart
    rw [show byteLength above.flatten = offset by simpa using h.offset] at start
    exact List.mem_of_getElem? start
  · rw [List.concat_eq_append] at h plain
    have cut : text = (above.flatten ++ (front ++ [c])) ++ (after ++ below.flatten) := by
      rw [List.append_assoc]
      exact h.split
    have bytes : byteLength (above.flatten ++ (front ++ [c])) = offset := by
      rw [byteLength_append]
      exact h.offset
    obtain ⟨carriage, -⟩ := inside.before cut bytes
    rw [← List.append_assoc, List.getLast?_concat] at carriage
    cases carriage
    exact absurd (plain '\r' (by simp)) (by decide)

/-- An offset between a carriage return and its line feed comes back as the end of the content. -/
theorem offset?_position_inside {content : List Char} (plain : Plain content)
    (h : InLine text above (content ++ ['\r']) ['\n'] below offset) :
    (LineMap.ofText text).offset? ((LineMap.ofText text).position offset) = some (offset - 1) ∧
      ContentEnds text ((LineMap.ofText text).position offset).line (offset - 1) := by
  have place := h.offset
  have carriage : byteLength ['\r'] = 1 := rfl
  rw [byteLength_append, carriage] at place
  have shape := h.split
  rw [List.append_assoc] at shape
  rw [h.position]
  constructor
  · have wide : units content ≤ units (content ++ ['\r']) := by
      rw [units_append]
      exact Nat.le_add_right _ _
    rw [h.offset?_line, List.append_assoc, List.singleton_append,
      bytesUpToColumn_past plain rfl ['\n'] wide]
    exact congrArg some (by omega)
  · refine ⟨above.flatten, content, '\r' :: '\n' :: below.flatten, shape, h.lineStart, plain, ?_,
      ?_⟩
    · omega
    · intro c first
      cases first
      rfl

end InLine

end Text

namespace LineMap

/-- A boundary of characters comes back from its position, unless it is between a carriage return
    and its line feed. Then what comes back is the end of the content of its line, one byte
    earlier. -/
theorem boundary_comes_back (text : List Char) (offset : Nat) (h : Text.IsBoundary text offset) :
    (¬ Text.InsideLineEnd text offset →
      (ofText text).offset? ((ofText text).position offset) = some offset) ∧
    (Text.InsideLineEnd text offset →
      (ofText text).offset? ((ofText text).position offset) = some (offset - 1) ∧
        Text.ContentEnds text ((ofText text).position offset).line (offset - 1)) := by
  obtain ⟨above, before, after, below, here⟩ := h.inLine
  rcases here.plain_or_split with plain | ⟨content, rfl, rfl, plain⟩
  · constructor
    · intro _
      exact here.offset?_position plain
    · intro inside
      exact absurd inside (here.not_inside plain)
  · have back := here.offset?_position_inside plain
    constructor
    · intro outside
      refine absurd ?_ outside
      refine ⟨above.flatten ++ content, below.flatten, ?_, ?_⟩
      · rw [here.split]
        simp
      · rw [← here.offset, Text.byteLength_append, Text.byteLength_append]
        rfl
    · intro _
      exact back

/-- A character of two code units, a line end of two characters, and two of one. -/
def mixedLines : List Char := ['😀', '\r', '\n', '\r', '\r', '\n', 'é']

theorem mixedLines_come_back :
    (Text.IsBoundary mixedLines 5 ∧ Text.InsideLineEnd mixedLines 5 ∧
      (ofText mixedLines).offset? ((ofText mixedLines).position 5) = some 4 ∧
      Text.ContentEnds mixedLines ((ofText mixedLines).position 5).line 4) ∧
    (Text.IsBoundary mixedLines 7 ∧ ¬ Text.InsideLineEnd mixedLines 7 ∧
      (ofText mixedLines).offset? ((ofText mixedLines).position 7) = some 7) := by
  have inside : Text.InsideLineEnd mixedLines 5 := ⟨['😀'], ['\r', '\r', '\n', 'é'], rfl, rfl⟩
  have five : Text.IsBoundary mixedLines 5 := ⟨['😀', '\r'], ['\n', '\r', '\r', '\n', 'é'], rfl, rfl⟩
  have seven : Text.IsBoundary mixedLines 7 :=
    ⟨['😀', '\r', '\n', '\r'], ['\r', '\n', 'é'], rfl, rfl⟩
  have outside : ¬ Text.InsideLineEnd mixedLines 7 := fun h => h.not_start (by decide +kernel)
  exact ⟨⟨five, inside, (boundary_comes_back mixedLines 5 five).2 inside⟩, seven, outside,
    (boundary_comes_back mixedLines 7 seven).1 outside⟩

end LineMap

end ParameterHints
