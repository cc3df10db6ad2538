import ParameterHints.Proofs.Inlay.ReadingOrder
import ParameterHints.Proofs.Text.Boundary

/-! # Lines of a text

A text is the concatenation of its lines, each with the characters that end it. The offsets of a
line map are where these lines start, so a character boundary is given by the lines before it and
the part of its own line before it, and from there its position is read off.
-/

namespace ParameterHints

namespace Text

/-- Put a character in front of the first line. -/
def startLine (c : Char) : List (List Char) → List (List Char)
  | [] => [[c]]
  | line :: rest => (c :: line) :: rest

/-- The lines of a text with their ends. There is always a last one without an end. -/
def lines : List Char → List (List Char)
  | [] => [[]]
  | c :: rest =>
      if c = '\n' ∨ (c = '\r' ∧ rest.head? ≠ some '\n') then [c] :: lines rest
      else startLine c (lines rest)

/-- No character is part of a line end. -/
def Plain (text : List Char) : Prop := ∀ c ∈ text, isLineEnd c = false

/-- A plain text with one line end behind it. -/
def Terminated (line : List Char) : Prop :=
  ∃ content ending, line = content ++ ending ∧ Plain content ∧
    (ending = ['\n'] ∨ ending = ['\r'] ∨ ending = ['\r', '\n'])

/-- All lines but the last are terminated. -/
def Terminates : List (List Char) → Prop
  | [] => False
  | [last] => Plain last
  | line :: second :: rest => Terminated line ∧ Terminates (second :: rest)

/-- How a line may end in front of the rest of a text. A carriage return takes a line feed right
    behind it along. -/
inductive Ending (behind : List Char) : List Char → Prop
  | lineFeed : Ending behind ['\n']
  | both : Ending behind ['\r', '\n']
  | carriageReturn (alone : behind.head? ≠ some '\n') : Ending behind ['\r']

/-- A cut of a text into its lines: the last one is plain, and each of the others is plain with one
    end behind it. -/
inductive CutsLines : List (List Char) → Prop
  | last {line : List Char} (plain : Plain line) : CutsLines [line]
  | line {content ending : List Char} {rest : List (List Char)} (plain : Plain content)
      (ends : Ending rest.flatten ending) (later : CutsLines rest) :
      CutsLines ((content ++ ending) :: rest)

/-- The offsets at which lines start, the first at `offset`. -/
def startsFrom (offset : Nat) : List (List Char) → List Nat
  | [] => []
  | line :: rest => offset :: startsFrom (offset + byteLength line) rest

theorem plain_nil : Plain [] := fun _ member => nomatch member

theorem Terminates.ne_nil {lines : List (List Char)} (h : Terminates lines) : lines ≠ [] := by
  rintro rfl
  exact h

theorem flatten_startLine (c : Char) (lines : List (List Char)) :
    (startLine c lines).flatten = c :: lines.flatten := by
  cases lines <;> rfl

@[simp] theorem flatten_lines (text : List Char) : (lines text).flatten = text := by
  induction text with
  | nil => rfl
  | cons c rest ih =>
      rw [lines]
      split
      · rw [List.flatten_cons, ih, List.singleton_append]
      · rw [flatten_startLine, ih]

theorem terminates_cons {line : List Char} {lines : List (List Char)} (h : Terminated line)
    (k : Terminates lines) : Terminates (line :: lines) := by
  cases lines with
  | nil => cases k
  | cons => exact ⟨h, k⟩

theorem Terminates.plain_last {above : List (List Char)} {last : List Char}
    (h : Terminates (above ++ [last])) : Plain last := by
  induction above with
  | nil => exact h
  | cons line rest ih =>
      cases rest with
      | nil => exact h.2
      | cons => exact ih h.2

theorem Terminates.terminated {above below : List (List Char)} {line second : List Char}
    (h : Terminates (above ++ line :: second :: below)) : Terminated line := by
  induction above with
  | nil => exact h.1
  | cons first rest ih =>
      cases rest with
      | nil => exact h.2.1
      | cons => exact ih h.2

theorem plain_cons {c : Char} {content : List Char} (first : isLineEnd c = false)
    (plain : Plain content) : Plain (c :: content) :=
  List.forall_mem_cons.mpr ⟨first, plain⟩

namespace CutsLines

variable {c : Char} {line : List Char} {cut : List (List Char)}

/-- A character that is no part of a line end may start the first line. -/
theorem startLine (h : CutsLines cut) (plain : isLineEnd c = false) :
    CutsLines (startLine c cut) := by
  cases h with
  | last line => exact .last (plain_cons plain line)
  | line content ends later => exact .line (plain_cons plain content) ends later

theorem later (h : CutsLines (line :: cut)) (ended : ¬ Plain line) : CutsLines cut := by
  cases h with
  | last plain => exact absurd plain ended
  | line _ _ later => exact later

theorem terminates (h : CutsLines cut) : Terminates cut := by
  induction h with
  | last plain => exact plain
  | line plain ends _ ih =>
      refine terminates_cons ⟨_, _, rfl, plain, ?_⟩ ih
      cases ends with
      | lineFeed => exact .inl rfl
      | carriageReturn => exact .inr (.inl rfl)
      | both => exact .inr (.inr rfl)

end CutsLines

theorem cutsLines_lines (text : List Char) : CutsLines (lines text) := by
  induction text with
  | nil => exact .last plain_nil
  | cons c rest ih =>
      rw [lines]
      split
      · next ended =>
          rcases ended with rfl | ⟨rfl, alone⟩
          · exact .line plain_nil .lineFeed ih
          · refine .line plain_nil (.carriageReturn ?_) ih
            rwa [flatten_lines]
      · next unended =>
          by_cases plain : isLineEnd c = false
          · exact ih.startLine plain
          · -- A carriage return that does not end its line stands in front of a line feed.
            simp only [isLineEnd, Bool.not_eq_false, Bool.or_eq_true, beq_iff_eq] at plain
            obtain rfl : c = '\r' := plain.resolve_left fun feed => unended (.inl feed)
            cases rest with
            | nil => simp at unended
            | cons second rest =>
                obtain rfl : second = '\n' := by simpa using unended
                simp only [lines, true_or, if_true] at ih ⊢
                have feed : ¬ Plain ['\n'] := fun plain =>
                  absurd (plain '\n' List.mem_cons_self) (by decide)
                exact .line plain_nil .both (ih.later feed)

theorem terminates_lines (text : List Char) : Terminates (lines text) :=
  (cutsLines_lines text).terminates

example : lines ['a', '\r', '\n', 'b', '\r'] = [['a', '\r', '\n'], ['b', '\r'], []] := rfl

/-- What stands before a place inside a line is plain, unless the place is between a carriage
    return and its line feed. -/
theorem Terminated.plain_before {before after : List Char} (h : Terminated (before ++ after))
    (more : after ≠ []) :
    Plain before ∨ ∃ content, before = content ++ ['\r'] ∧ after = ['\n'] ∧ Plain content := by
  obtain ⟨content, ending, split, plain, endings⟩ := h
  rcases List.append_eq_append_iff.mp split with ⟨inside, rfl, -⟩ | ⟨inside, rfl, rest⟩
  · exact .inl fun c member => plain c (List.mem_append_left _ member)
  · cases inside with
    | nil => exact .inl (by simpa using plain)
    | cons first others =>
        rcases endings with rfl | rfl | rfl
        · simp_all
        · simp_all
        · obtain ⟨rfl, feed⟩ := List.cons.inj rest
          cases others with
          | nil => exact .inr ⟨content, rfl, feed.symm, plain⟩
          | cons second others => simp_all

/-! ## Starts -/

theorem startsFrom_append (offset : Nat) (first second : List (List Char)) :
    startsFrom offset (first ++ second) =
      startsFrom offset first ++ startsFrom (offset + byteLength first.flatten) second := by
  induction first generalizing offset with
  | nil => rfl
  | cons line rest ih => simp [startsFrom, ih, Nat.add_assoc]

@[simp] theorem length_startsFrom (offset : Nat) (lines : List (List Char)) :
    (startsFrom offset lines).length = lines.length := by
  induction lines generalizing offset with
  | nil => rfl
  | cons line rest ih => simp [startsFrom, ih]

theorem startsFrom_le {offset start : Nat} {lines : List (List Char)}
    (h : start ∈ startsFrom offset lines) : start ≤ offset + byteLength lines.flatten := by
  induction lines generalizing offset with
  | nil => cases h
  | cons line rest ih =>
      rw [List.flatten_cons, byteLength_append]
      rcases List.mem_cons.mp h with rfl | later
      · exact Nat.le_add_right _ _
      · have := ih later
        omega

/-- The starts in a line map are those of the lines. -/
theorem startsFrom_lines (offset : Nat) (text : List Char) :
    startsFrom offset (lines text) = offset :: laterLineStarts offset text := by
  induction text generalizing offset with
  | nil => rfl
  | cons c rest ih =>
      rw [lines, laterLineStarts]
      split
      · rw [startsFrom, ← ih]
        rfl
      · have next := ih (offset + c.utf8Size)
        cases later : lines rest with
        | nil => simp [later, startsFrom] at next
        | cons line others =>
            rw [later, startsFrom] at next
            rw [startLine, startsFrom, byteLength_cons, ← Nat.add_assoc, (List.cons.inj next).2]

/-! ## Columns -/

theorem units_append (first second : List Char) :
    units (first ++ second) = units first + units second := by
  induction first with
  | nil => simp [units]
  | cons c rest ih => simp [units, ih, Nat.add_assoc]

theorem unitsOf_pos (c : Char) : 0 < unitsOf c := by
  unfold unitsOf
  split <;> decide

theorem units_pos {text : List Char} (h : text ≠ []) : 0 < units text := by
  cases text with
  | nil => exact absurd rfl h
  | cons c rest => exact Nat.add_pos_left (unitsOf_pos c) _

/-- As many code units as a plain leading part has lead back to its end. -/
theorem bytesUpToColumn_units {before : List Char} (plain : Plain before) (after : List Char) :
    bytesUpToColumn (units before) (before ++ after) = byteLength before := by
  induction before with
  | nil =>
      cases after with
      | nil => rfl
      | cons c rest =>
          have wide : ¬ unitsOf c ≤ 0 := Nat.not_le_of_lt (unitsOf_pos c)
          simp [bytesUpToColumn, units, wide]
  | cons c rest ih =>
      obtain ⟨first, others⟩ := List.forall_mem_cons.mp plain
      simp [bytesUpToColumn, units, first, ih others]

/-! ## Places in lines -/

/-- An offset stands behind `before` in a line that goes on with `after`, with `above` and `below`
    as the other lines. Where a line ends, the next one has begun. -/
structure InLine (text : List Char) (above : List (List Char)) (before after : List Char)
    (below : List (List Char)) (offset : Nat) : Prop where
  lines : lines text = above ++ (before ++ after) :: below
  offset : byteLength above.flatten + byteLength before = offset
  last : below = [] ∨ after ≠ []

/-- Every cut of some lines is in one of them. -/
theorem cut_lines (lines : List (List Char)) (nonempty : lines ≠ []) {before after : List Char}
    (h : lines.flatten = before ++ after) :
    ∃ above left right below, lines = above ++ (left ++ right) :: below ∧
      before = above.flatten ++ left ∧ (below = [] ∨ right ≠ []) := by
  induction lines generalizing before with
  | nil => exact absurd rfl nonempty
  | cons line rest ih =>
      have later : ∀ inside, rest ≠ [] → before = line ++ inside → rest.flatten = inside ++ after →
          ∃ above left right below, line :: rest = above ++ (left ++ right) :: below ∧
            before = above.flatten ++ left ∧ (below = [] ∨ right ≠ []) := by
        intro inside more first second
        obtain ⟨above, left, right, below, rfl, rfl, last⟩ := ih more second
        exact ⟨line :: above, left, right, below, rfl, by simp [first], last⟩
      cases rest with
      | nil =>
          rw [List.flatten_singleton] at h
          exact ⟨[], before, after, [], by rw [h]; rfl, rfl, .inl rfl⟩
      | cons second others =>
          rcases List.append_eq_append_iff.mp h with ⟨inside, first, rest⟩ | ⟨inside, first, rest⟩
          · exact later inside (by simp) first rest
          · cases inside with
            | nil => exact later [] (by simp) (by simp [first]) rest.symm
            | cons c more =>
                exact ⟨[], before, c :: more, _, by rw [first]; rfl, rfl, .inr (by simp)⟩

theorem IsBoundary.inLine {text : List Char} {offset : Nat} (h : IsBoundary text offset) :
    ∃ above before after below, InLine text above before after below offset := by
  obtain ⟨first, second, split, rfl⟩ := h
  obtain ⟨above, left, right, below, lines, cut, last⟩ := cut_lines (lines text)
    (terminates_lines text).ne_nil ((flatten_lines text).trans split)
  exact ⟨above, left, right, below, lines, by rw [cut, byteLength_append], last⟩

namespace InLine

variable {text before after : List Char} {above below : List (List Char)} {offset : Nat}

theorem split (h : InLine text above before after below offset) :
    text = above.flatten ++ (before ++ (after ++ below.flatten)) := by
  rw [← flatten_lines text, h.lines]
  simp

/-- The line starts behind those of the lines above, and the next one behind its end. -/
theorem starts (h : InLine text above before after below offset) :
    (LineMap.ofText text).starts = startsFrom 0 above ++ byteLength above.flatten ::
      startsFrom (byteLength above.flatten + byteLength (before ++ after)) below := by
  change 0 :: laterLineStarts 0 text = _
  rw [← startsFrom_lines, h.lines, startsFrom_append, Nat.zero_add]
  rfl

theorem lineStart (h : InLine text above before after below offset) :
    (LineMap.ofText text).lineStart? above.length = some (byteLength above.flatten) := by
  rw [LineMap.lineStart?, h.starts, List.getElem?_append_right (by simp)]
  simp

theorem lineAt (h : InLine text above before after below offset) :
    (LineMap.ofText text).lineAt offset = above.length := by
  have early : ∀ start ∈ startsFrom 0 above, decide (start ≤ offset) = true := by
    intro start member
    have := startsFrom_le member
    have := h.offset
    simpa using by omega
  have here : byteLength above.flatten ≤ offset := by
    have := h.offset
    omega
  have late : (startsFrom (byteLength above.flatten + byteLength (before ++ after)) below).takeWhile
      (fun start => decide (start ≤ offset)) = [] := by
    cases below with
    | nil => rfl
    | cons line rest =>
        have more : byteLength after ≠ 0 := fun none =>
          h.last.elim (by simp) fun some => some (byteLength_eq_zero none)
        have := h.offset
        refine List.takeWhile_cons_of_neg ?_
        simp only [byteLength_append, decide_eq_true_eq]
        omega
  rw [LineMap.lineAt, h.starts, List.takeWhile_append_of_pos early,
    List.takeWhile_cons_of_pos (by simpa using here), late]
  simp

theorem position (h : InLine text above before after below offset) :
    (LineMap.ofText text).position offset = ⟨above.length, units before⟩ := by
  have inside : offset ≤ byteLength text := by
    rw [h.split, ← h.offset]
    simp
  have stop : min offset (byteLength text) = offset := Nat.min_eq_left inside
  have start : min (byteLength above.flatten) offset = byteLength above.flatten :=
    Nat.min_eq_left (by have := h.offset; omega)
  have cut : slice text (byteLength above.flatten) offset = some before := by
    rw [h.split, ← h.offset]
    exact slice_append _ _ _
  change Position.mk _ (units ((slice text (min (((LineMap.ofText text).lineStart?
    ((LineMap.ofText text).lineAt offset)).getD 0) (min offset (byteLength text)))
      (min offset (byteLength text))).getD [])) = _
  rw [h.lineAt, h.lineStart, stop, Option.getD_some, start, cut]
  rfl

/-- A line stops where the next one starts, or else at the end of the text. -/
theorem lineStop (h : InLine text above before after below offset) :
    ((LineMap.ofText text).lineStart? (above.length + 1)).getD (byteLength text) =
      byteLength above.flatten + byteLength (before ++ after) := by
  rw [LineMap.lineStart?, h.starts, List.getElem?_append_right (by simp), length_startsFrom,
    Nat.add_sub_cancel_left, List.getElem?_cons_succ]
  cases below with
  | nil =>
      have whole : byteLength text = byteLength above.flatten + byteLength (before ++ after) := by
        rw [← byteLength_append, h.split]
        simp
      exact whole
  | cons line rest => rfl

/-- A column of a line is looked for from the start of the line to its end. -/
theorem offset?_line (h : InLine text above before after below offset) (column : Nat) :
    (LineMap.ofText text).offset? ⟨above.length, column⟩ =
      some (byteLength above.flatten + bytesUpToColumn column (before ++ after)) := by
  have line : slice text (byteLength above.flatten)
      (byteLength above.flatten + byteLength (before ++ after)) = some (before ++ after) := by
    rw [h.split, ← List.append_assoc before]
    exact slice_append _ _ _
  rw [LineMap.offset?, h.lineStart, Option.map_some]
  change some (byteLength above.flatten + bytesUpToColumn column
    ((slice text (byteLength above.flatten)
      (((LineMap.ofText text).lineStart? (above.length + 1)).getD (byteLength text))).getD [])) = _
  rw [h.lineStop, line, Option.getD_some]

/-- The offset comes back when no part of a line end stands before it in its line. -/
theorem offset?_position (h : InLine text above before after below offset)
    (plain : Plain before) :
    (LineMap.ofText text).offset? ((LineMap.ofText text).position offset) = some offset := by
  rw [h.position, h.offset?_line, bytesUpToColumn_units plain, h.offset]

/-- Offsets in a later line, or further on in the same one, have later positions. -/
theorem position_before {before' after' : List Char} {above' below' : List (List Char)}
    {offset' : Nat} (h : InLine text above before after below offset)
    (k : InLine text above' before' after' below' offset') (lt : offset < offset') :
    ((LineMap.ofText text).position offset).before ((LineMap.ofText text).position offset') := by
  have first := h.offset
  have second := k.offset
  have same := h.lines.symm.trans k.lines
  rw [h.position, k.position]
  rcases Nat.lt_trichotomy above.length above'.length with earlier | level | later
  · exact .inl earlier
  · obtain ⟨rfl, rest⟩ := List.append_inj same level
    refine .inr ⟨rfl, ?_⟩
    rcases List.append_eq_append_iff.mp (List.cons.inj rest).1 with
      ⟨more, rfl, -⟩ | ⟨more, rfl, -⟩
    · rw [byteLength_append] at second
      have wider : more ≠ [] := by
        rintro rfl
        simp only [byteLength_nil] at second
        omega
      rw [units_append]
      exact Nat.lt_add_of_pos_right (units_pos wider)
    · rw [byteLength_append] at first
      omega
  · exfalso
    rcases List.append_eq_append_iff.mp same with ⟨more, rfl, -⟩ | ⟨more, rfl, rest⟩
    · rw [List.length_append] at later
      omega
    · cases more with
      | nil => simp at later
      | cons line more =>
          obtain ⟨rfl, -⟩ := List.cons.inj rest
          simp only [List.flatten_append, List.flatten_cons, byteLength_append] at first
          omega

/-- Only a carriage return of its own line end may stand before an offset in its line. -/
theorem plain_or_split (h : InLine text above before after below offset) :
    Plain before ∨ ∃ content, before = content ++ ['\r'] ∧ after = ['\n'] ∧ Plain content := by
  have shape := terminates_lines text
  rw [h.lines] at shape
  cases below with
  | nil => exact .inl fun c member => shape.plain_last c (List.mem_append_left _ member)
  | cons line rest =>
      exact shape.terminated.plain_before (h.last.resolve_left (by simp))

end InLine

end Text

namespace LineMap

variable {text : List Char} {offset : Nat}

/-- Positions of character boundaries are in the order of the boundaries. -/
theorem position_before {offset' : Nat} (h : Text.IsBoundary text offset)
    (k : Text.IsBoundary text offset') (lt : offset < offset') :
    ((ofText text).position offset).before ((ofText text).position offset') := by
  obtain ⟨_, _, _, _, first⟩ := h.inLine
  obtain ⟨_, _, _, _, second⟩ := k.inLine
  exact first.position_before second lt

/-- Different character boundaries have different positions. -/
theorem position_injective {offset' : Nat} (h : Text.IsBoundary text offset)
    (k : Text.IsBoundary text offset')
    (same : (ofText text).position offset = (ofText text).position offset') : offset = offset' := by
  rcases Nat.lt_trichotomy offset offset' with lt | eq | gt
  · exact absurd (same ▸ position_before h k lt) (Position.before_irrefl _)
  · exact eq
  · exact absurd (same ▸ position_before k h gt) (Position.before_irrefl _)

/-- Behind a separator no line end is under way, so the offset comes back from its position. -/
theorem offset?_separated {lo : Nat} (h : Text.IsSeparated text lo offset) :
    (ofText text).offset? ((ofText text).position offset) = some offset := by
  obtain ⟨above, before, after, below, here⟩ := h.boundary.inLine
  rcases here.plain_or_split with plain | ⟨content, rfl, rfl, -⟩
  · exact here.offset?_position plain
  · obtain ⟨first, c, rest, split, separator, -, place⟩ := h
    have length : Text.byteLength (first ++ [c]) =
        Text.byteLength (above.flatten ++ (content ++ ['\r'])) := by
      rw [Text.byteLength_append, Text.byteLength_append, here.offset, ← place]
      rfl
    have both : (first ++ [c]) ++ rest =
        (above.flatten ++ (content ++ ['\r'])) ++ (['\n'] ++ below.flatten) := by
      rw [List.append_assoc, List.append_assoc, ← here.split, split]
      rfl
    have same := Text.before_unique both length
    obtain rfl : c = '\r' := by simpa using congrArg List.getLast? same
    rcases separator with paren | blank <;> contradiction

end LineMap

end ParameterHints
