import Mathlib.Order.Bounds.Defs
import ParameterHints.Proofs.Text.Narrow
import ParameterHints.Proofs.Text.RoundTrip

/-! # Offsets and positions in order

Positions of character boundaries are in the order of the boundaries, and the offset of a position
is the last boundary in the content of its line that is not past the position. So both ways from
one to the other keep the order, and hints that are sorted by position are in source order.
-/

namespace ParameterHints

namespace Text

/-- The number of code units of a text between two of its boundaries. -/
def unitsBetween (text : List Char) (start stop : Nat) : Nat :=
  units ((slice text start stop).getD [])

/-- The boundaries in the content of the line of a position that are not past its column. -/
def upToPosition (text : List Char) (p : Position) : Set Nat :=
  {offset | IsBoundary text offset ∧ ∃ start stop,
    (LineMap.ofText text).lineStart? p.line = some start ∧ ContentEnds text p.line stop ∧
    start ≤ offset ∧ offset ≤ stop ∧ unitsBetween text start offset ≤ p.column}

theorem unitsBetween_append (front inside rest : List Char) :
    unitsBetween (front ++ (inside ++ rest)) (byteLength front)
      (byteLength front + byteLength inside) = units inside := by
  rw [unitsBetween, slice_append, Option.getD_some]

variable {text front content rest : List Char} {offset : Nat}

/-- A boundary of characters within a part of a text cuts that part. -/
theorem IsBoundary.cut (h : IsBoundary text offset) (split : text = front ++ (content ++ rest))
    (after : byteLength front ≤ offset)
    (before : offset ≤ byteLength front + byteLength content) :
    ∃ inside more, content = inside ++ more ∧ byteLength front + byteLength inside = offset := by
  obtain ⟨first, last, shape, rfl⟩ := h
  have both : front ++ (content ++ rest) = first ++ last := split.symm.trans shape
  rcases List.append_eq_append_iff.mp both with ⟨inside, rfl, behind⟩ | ⟨inside, rfl, behind⟩
  · rw [byteLength_append] at before
    rcases List.append_eq_append_iff.mp behind with ⟨more, rfl, -⟩ | ⟨more, rfl, -⟩
    · -- The boundary is at the end of the part.
      rw [byteLength_append] at before
      have none : more = [] := byteLength_eq_zero (by omega)
      exact ⟨content, [], by simp, by simp [none]⟩
    · exact ⟨inside, more, rfl, byteLength_append .. |>.symm⟩
  · rw [byteLength_append] at after
    have none : inside = [] := byteLength_eq_zero (by omega)
    exact ⟨[], content, rfl, by simp [none]⟩

/-! ## How far a column leads -/

/-- No plain leading part of a line that is narrow enough is longer than what a column leads to. -/
theorem le_bytesUpToColumn {before : List Char} (plain : Plain before) (after : List Char)
    {column : Nat} (narrow : units before ≤ column) :
    byteLength before ≤ bytesUpToColumn column (before ++ after) := by
  induction before generalizing column with
  | nil => exact Nat.zero_le _
  | cons c rest ih =>
      obtain ⟨first, others⟩ := List.forall_mem_cons.mp plain
      rw [units] at narrow
      have fits : unitsOf c ≤ column := by omega
      have left : units rest ≤ column - unitsOf c := by omega
      have further := ih others left
      simp only [List.cons_append, bytesUpToColumn, first, Bool.false_eq_true, if_false, fits,
        if_true, byteLength_cons]
      omega

/-- A wider column leads no less far. -/
theorem bytesUpToColumn_mono (line : List Char) {column wider : Nat} (le : column ≤ wider) :
    bytesUpToColumn column line ≤ bytesUpToColumn wider line := by
  obtain ⟨before, after, rfl, plain, narrow, bytes⟩ := bytesUpToColumn_split column line
  rw [bytes]
  exact le_bytesUpToColumn plain after (Nat.le_trans narrow le)

/-- No column leads past the first line end, so what stands behind it does not matter. -/
theorem bytesUpToColumn_content (ended : ∀ c, rest.head? = some c → isLineEnd c)
    (content : List Char) (column : Nat) :
    bytesUpToColumn column (content ++ rest) = bytesUpToColumn column content := by
  induction content generalizing column with
  | nil =>
      cases rest with
      | nil => rfl
      | cons c more => simp [bytesUpToColumn, ended c rfl]
  | cons c more ih => simp only [List.cons_append, bytesUpToColumn, ih]

/-- A line has a content, behind which the text ends or a line end begins. -/
theorem exists_content {line : List Char} {above below : List (List Char)}
    (cut : lines text = above ++ line :: below) :
    ∃ content rest, line ++ below.flatten = content ++ rest ∧ Plain content ∧
      (∀ c, rest.head? = some c → isLineEnd c) ∧
      ∀ column, bytesUpToColumn column line = bytesUpToColumn column content := by
  have shape := terminates_lines text
  rw [cut] at shape
  cases below with
  | nil => exact ⟨line, [], rfl, shape.plain_last, by simp, fun _ => rfl⟩
  | cons second more =>
      obtain ⟨content, ending, rfl, plain, endings⟩ := shape.terminated
      have ended (behind : List Char) : ∀ c, (ending ++ behind).head? = some c → isLineEnd c := by
        rcases endings with rfl | rfl | rfl <;> (intro c first; cases first; rfl)
      have alone := ended []
      rw [List.append_nil] at alone
      exact ⟨content, ending ++ (second :: more).flatten, List.append_assoc .., plain, ended _,
        bytesUpToColumn_content alone content⟩

/-- Where a column is looked for in the content of a line. -/
theorem offset?_of_content {line : Nat} (split : text = front ++ (content ++ rest))
    (start : (LineMap.ofText text).lineStart? line = some (byteLength front))
    (ended : ∀ c, rest.head? = some c → isLineEnd c) (column : Nat) :
    (LineMap.ofText text).offset? ⟨line, column⟩ =
      some (byteLength front + bytesUpToColumn column content) := by
  have known : line < (LineMap.ofText text).lineCount := (List.getElem?_eq_some_iff.mp start).1
  obtain ⟨above, whole, below, cut, rfl⟩ := exists_line known
  obtain ⟨inner, outer, same, -, outerEnded, inside⟩ := exists_content cut
  have here : InLine text above [] whole below _ := inLine_of_plain cut plain_nil
  have length : byteLength front = byteLength above.flatten :=
    Option.some.inj (start.symm.trans here.lineStart)
  have both : front ++ (content ++ rest) = above.flatten ++ (inner ++ outer) := by
    rw [← split, ← same]
    exact here.split
  obtain rfl := before_unique both length
  -- What follows the start is cut in two ways, and a column leads equally far into both contents.
  calc (LineMap.ofText text).offset? ⟨above.length, column⟩
      = some (byteLength above.flatten + bytesUpToColumn column whole) := offset?_of_line cut column
    _ = some (byteLength above.flatten + bytesUpToColumn column (inner ++ outer)) := by
        rw [inside, bytesUpToColumn_content outerEnded]
    _ = some (byteLength above.flatten + bytesUpToColumn column content) := by
        rw [← List.append_cancel_left both, bytesUpToColumn_content ended]

variable {p : Position}

/-- The offset of a position is a boundary that is not past it. -/
theorem mem_upToPosition (h : (LineMap.ofText text).offset? p = some offset) :
    offset ∈ upToPosition text p := by
  obtain ⟨above, line, below, cut, length⟩ := exists_line (LineMap.known_of_offset? h)
  obtain ⟨content, rest, same, plain, ended, inside⟩ := exists_content cut
  obtain ⟨before, after, rfl, -, narrow, bytes⟩ := bytesUpToColumn_split p.column content
  have found := offset?_of_line cut p.column
  rw [length, h, inside, bytes] at found
  cases found
  have here : InLine text above [] line below _ := inLine_of_plain cut plain_nil
  have start := here.lineStart
  rw [length] at start
  have split : text = above.flatten ++ (before ++ (after ++ rest)) := by
    rw [← List.append_assoc before, ← same]
    exact here.split
  have boundary : IsBoundary text (byteLength above.flatten + byteLength before) :=
    ⟨above.flatten ++ before, after ++ rest, by rw [split, List.append_assoc],
      byteLength_append ..⟩
  have ends : ContentEnds text p.line
      (byteLength above.flatten + byteLength (before ++ after)) :=
    ⟨above.flatten, before ++ after, rest, by rw [split, List.append_assoc before], start, plain,
      rfl, ended⟩
  refine ⟨boundary, _, _, start, ends, Nat.le_add_right _ _, ?_, ?_⟩
  · rw [byteLength_append]
    omega
  · rw [split, unitsBetween_append]
    exact narrow

/-- No boundary that is not past a position is behind its offset. -/
theorem le_of_mem_upToPosition {other : Nat} (h : (LineMap.ofText text).offset? p = some offset)
    (member : other ∈ upToPosition text p) : other ≤ offset := by
  obtain ⟨boundary, start, _, known, ends, after, before, narrow⟩ := member
  obtain ⟨front, content, rest, split, first, plain, rfl, ended⟩ := ends
  obtain rfl : start = byteLength front := Option.some.inj (known.symm.trans first)
  obtain ⟨inside, more, rfl, rfl⟩ := boundary.cut split after before
  have found := offset?_of_content split first ended p.column
  rw [h] at found
  cases found
  rw [List.append_assoc] at split
  rw [split, unitsBetween_append] at narrow
  have leading : Plain inside := fun c member => plain c (List.mem_append_left _ member)
  exact Nat.add_le_add_left (le_bytesUpToColumn leading more narrow) _

end Text

namespace LineMap

variable {text : List Char}

/-- Offsets are in the order of the positions they come from. -/
theorem offset?_mono {p q : Position} {first second : Nat}
    (h : (ofText text).offset? p = some first) (k : (ofText text).offset? q = some second)
    (ordered : p.notAfter q) : first ≤ second := by
  rw [Position.notAfter_iff] at ordered
  rcases ordered with above | ⟨same, le⟩
  · -- The offsets are on the lines of their positions, so they are compared by their lines.
    obtain ⟨_, _, _, _, lineP, -, -, hereP⟩ := inLine_of_offset? h
    obtain ⟨_, _, _, _, lineQ, -, -, hereQ⟩ := inLine_of_offset? k
    rw [← position_notAfter_iff hereP.boundary hereQ.boundary, Position.notAfter_iff,
      hereP.position, hereQ.position, lineP, lineQ]
    exact .inl above
  · obtain ⟨above, line, below, cut, length⟩ := Text.exists_line (known_of_offset? h)
    have foundP := Text.offset?_of_line cut p.column
    have foundQ := Text.offset?_of_line cut q.column
    rw [length, h] at foundP
    rw [length, same, k] at foundQ
    cases foundP
    cases foundQ
    exact Nat.add_le_add_left (Text.bytesUpToColumn_mono line le) _

/-- The offset of a position is the last boundary in the content of its line that is not past its
    column, and there is one for every line of the text. No later position has an earlier offset,
    and numbers of 32 bits are enough on the way. -/
theorem offset_is_greatest (text : List Char) (short : Text.byteLength text ≤ maxOffset)
    (p : Position) :
    Narrow.offset? (ofText text) p = some ((ofText text).offset? p) ∧
    ((ofText text).offset? p = none ↔ (ofText text).lineCount ≤ p.line) ∧
    (∀ offset, (ofText text).offset? p = some offset →
      IsGreatest (Text.upToPosition text p) offset ∧
      Narrow.position (ofText text) offset = some ((ofText text).position offset) ∧
      ((ofText text).position offset).line = p.line ∧
      ((ofText text).position offset).column ≤ p.column) ∧
    ∀ q first second, (ofText text).offset? p = some first →
      (ofText text).offset? q = some second → p.notAfter q → first ≤ second := by
  refine ⟨Narrow.offset?_eq short p, offset?_eq_none_iff, ?_, fun _ _ _ => offset?_mono⟩
  intro offset found
  obtain ⟨_, _, _, _, line, -, narrow, here⟩ := inLine_of_offset? found
  have greatest : IsGreatest (Text.upToPosition text p) offset :=
    ⟨Text.mem_upToPosition found, fun _ => Text.le_of_mem_upToPosition found⟩
  refine ⟨greatest, Narrow.position_eq short offset, ?_, ?_⟩
  · rw [here.position]
    exact line
  · rw [here.position]
    exact narrow

/-- A column between the two units of a surrogate pair, and one past the end of its line. -/
theorem mixedLines_offsets :
    Text.byteLength mixedLines ≤ maxOffset ∧
    ((ofText mixedLines).offset? ⟨0, 1⟩ = some 0 ∧
      IsGreatest (Text.upToPosition mixedLines ⟨0, 1⟩) 0 ∧
      ((ofText mixedLines).position 0).column ≤ 1) ∧
    ((ofText mixedLines).offset? ⟨0, maxOffset⟩ = some 4 ∧
      IsGreatest (Text.upToPosition mixedLines ⟨0, maxOffset⟩) 4 ∧
      ((ofText mixedLines).position 4).line = 0) ∧
    (Position.mk 0 1).notAfter ⟨0, maxOffset⟩ ∧ 0 ≤ 4 := by
  have short : Text.byteLength mixedLines ≤ maxOffset := by decide +kernel
  have inside : (ofText mixedLines).offset? ⟨0, 1⟩ = some 0 := by decide +kernel
  have past : (ofText mixedLines).offset? ⟨0, maxOffset⟩ = some 4 := by decide +kernel
  have ordered : (Position.mk 0 1).notAfter ⟨0, maxOffset⟩ := by decide +kernel
  obtain ⟨-, -, first, upward⟩ := offset_is_greatest mixedLines short ⟨0, 1⟩
  obtain ⟨-, -, second, -⟩ := offset_is_greatest mixedLines short ⟨0, maxOffset⟩
  obtain ⟨last, -, -, column⟩ := first 0 inside
  obtain ⟨ending, -, line, -⟩ := second 4 past
  exact ⟨short, ⟨inside, last, column⟩, ⟨past, ending, line⟩, ordered,
    upward _ 0 4 inside past ordered⟩

/-! ## The line of an offset -/

/-- What a search for a number among sorted ones may answer: a place where it stands, or else the
    place where it can be put in. -/
inductive Searched (sorted : List Nat) (n : Nat) : Except Nat Nat → Prop
  | found {place : Nat} (here : sorted[place]? = some n) : Searched sorted n (.ok place)
  | missing {before after : List Nat} (split : sorted = before ++ after)
      (below : ∀ x ∈ before, x < n) (above : ∀ x ∈ after, n < x) :
      Searched sorted n (.error before.length)

/-- The line for which such an answer stands when it is the starts of lines that are searched. -/
def lineFound : Except Nat Nat → Nat
  | .ok place => place
  | .error place => place - 1

theorem lt_of_mem_laterLineStarts {offset start : Nat}
    (h : start ∈ Text.laterLineStarts offset text) : offset < start := by
  obtain ⟨before, c, after, -, -, rfl⟩ := Text.ended_of_mem_laterLineStarts h
  have pos := c.utf8Size_pos
  omega

/-- No two lines start at one place. -/
theorem starts_increase (text : List Char) : (ofText text).starts.Pairwise (· < ·) := by
  have later : ∀ offset, (Text.laterLineStarts offset text).Pairwise (· < ·) := by
    induction text with
    | nil => exact fun _ => .nil
    | cons c rest ih =>
        intro offset
        rw [Text.laterLineStarts]
        split
        · exact .cons (fun _ => lt_of_mem_laterLineStarts) (ih _)
        · exact ih _
  exact .cons (fun _ => lt_of_mem_laterLineStarts) (later 0)

variable {offset : Nat}

/-- The lines that start at an offset or before it end with the line of the offset. -/
theorem lineAt_of_split {before after : List Nat} (split : (ofText text).starts = before ++ after)
    (early : ∀ start ∈ before, start ≤ offset) (late : ∀ start ∈ after, offset < start) :
    (ofText text).lineAt offset = before.length - 1 := by
  have none : after.takeWhile (fun start => decide (start ≤ offset)) = [] := by
    cases after with
    | nil => rfl
    | cons start rest =>
        have gt := late start List.mem_cons_self
        exact List.takeWhile_cons_of_neg (by simpa using gt)
  rw [lineAt, split, List.takeWhile_append_of_pos (by simpa using early), none, List.append_nil]

/-- Any search among the starts of lines finds the line of an offset. -/
theorem lineFound_eq {answer : Except Nat Nat} (h : Searched (ofText text).starts offset answer) :
    lineFound answer = (ofText text).lineAt offset := by
  cases h with
  | @found place here =>
      have increase := starts_increase text
      obtain ⟨inside, here⟩ := List.getElem?_eq_some_iff.mp here
      have split : (ofText text).starts = ((ofText text).starts.take place ++ [offset]) ++
          (ofText text).starts.drop (place + 1) := by
        rw [List.append_assoc, List.singleton_append, ← here, ← List.drop_eq_getElem_cons inside,
          List.take_append_drop]
      rw [split, List.pairwise_append, List.pairwise_append] at increase
      obtain ⟨⟨-, -, early⟩, -, late⟩ := increase
      rw [lineAt_of_split split]
      · simp [lineFound, Nat.le_of_lt inside]
      · intro start member
        rcases List.mem_append.mp member with below | same
        · exact Nat.le_of_lt (early start below offset List.mem_cons_self)
        · exact Nat.le_of_eq (List.mem_singleton.mp same)
      · exact late offset (List.mem_append_right _ List.mem_cons_self)
  | missing split below above =>
      exact (lineAt_of_split split (fun start member => Nat.le_of_lt (below start member))
        above).symm

/-- What is past the end of a text is taken for the end. -/
theorem position_past (past : Text.byteLength text ≤ offset) :
    (ofText text).position offset = (ofText text).position (Text.byteLength text) := by
  have all : (ofText text).starts = (ofText text).starts ++ [] := (List.append_nil _).symm
  have line : (ofText text).lineAt offset = (ofText text).lineAt (Text.byteLength text) := by
    rw [lineAt_of_split all, lineAt_of_split all]
    · exact fun start member => Text.start_le_byteLength member
    · exact fun start none => nomatch none
    · exact fun start member => Nat.le_trans (Text.start_le_byteLength member) past
    · exact fun start none => nomatch none
  have stop : min offset (Text.byteLength (ofText text).text) =
      min (Text.byteLength text) (Text.byteLength (ofText text).text) :=
    (Nat.min_eq_right past).trans (Nat.min_self _).symm
  unfold position
  rw [line, stop]

/-- Positions are in the order of the boundaries of characters they belong to, and what is past the
    end of the text has the position of the end. The line of a position is what any search among
    the starts of lines finds, and numbers of 32 bits are enough on the way. -/
theorem position_embeds_order (text : List Char) (short : Text.byteLength text ≤ maxOffset) :
    (∀ first second, Text.IsBoundary text first → Text.IsBoundary text second →
      (first < second ↔
        ((ofText text).position first).before ((ofText text).position second))) ∧
    (∀ offset, Text.byteLength text ≤ offset →
      (ofText text).position offset = (ofText text).position (Text.byteLength text)) ∧
    ∀ offset, Narrow.position (ofText text) offset = some ((ofText text).position offset) ∧
      ∀ answer, Searched (ofText text).starts offset answer →
        lineFound answer = ((ofText text).position offset).line := by
  refine ⟨?_, fun offset => position_past, fun offset => ⟨Narrow.position_eq short offset, ?_⟩⟩
  · intro first second h k
    exact (position_before_iff h k).symm
  · intro answer searched
    exact lineFound_eq searched

/-- On both sides of a line feed, far past the end of the text, and inside a line end, where no line
    starts. -/
theorem mixedLines_positions :
    Text.byteLength mixedLines ≤ maxOffset ∧
    (Text.IsBoundary mixedLines 5 ∧ Text.IsBoundary mixedLines 6 ∧
      (5 < 6 ↔ ((ofText mixedLines).position 5).before ((ofText mixedLines).position 6))) ∧
    (ofText mixedLines).position maxOffset =
      (ofText mixedLines).position (Text.byteLength mixedLines) ∧
    Searched (ofText mixedLines).starts 8 (.error 3) ∧
      2 = ((ofText mixedLines).position 8).line := by
  have short : Text.byteLength mixedLines ≤ maxOffset := by decide +kernel
  have five : Text.IsBoundary mixedLines 5 :=
    ⟨['😀', '\r'], ['\n', '\r', '\r', '\n', 'é'], rfl, rfl⟩
  have six : Text.IsBoundary mixedLines 6 :=
    ⟨['😀', '\r', '\n'], ['\r', '\r', '\n', 'é'], rfl, rfl⟩
  have split : (ofText mixedLines).starts = [0, 6, 7] ++ [9] := by decide +kernel
  have missing : Searched (ofText mixedLines).starts 8 (.error 3) :=
    .missing split (by decide) (by decide)
  obtain ⟨order, past, found⟩ := position_embeds_order mixedLines short
  exact ⟨short, ⟨five, six, order 5 6 five six⟩, past maxOffset short, missing,
    (found 8).2 _ missing⟩

-- Offsets inside a character are not in order: all have column zero.
example : (ofText mixedLines).position 1 = (ofText mixedLines).position 2 := by decide +kernel

end LineMap

end ParameterHints
