import ParameterHints.Proofs.Syntax.Narrow
import ParameterHints.Proofs.Text.Clamping

/-! # Lines and columns in 32 bits

Offsets, lines and columns are numbers of 32 bits as well. A number that is stored loses its upper
bits, and a sum that does not fit has no answer. A text of fewer than 2 ^ 32 bytes has no more code
units than bytes, so nothing is lost in it and every sum fits.
-/

namespace ParameterHints

namespace Narrow

/-- A sum, if it fits. -/
def plus (a b : Nat) : Option Nat := if a + b ≤ maxOffset then some (a + b) else none

/-- The code units of a text, added to those counted so far. -/
def units (counted : Nat) : List Char → Option Nat
  | [] => some counted
  | c :: rest => do units (← plus counted (Text.unitsOf c)) rest

/-- The bytes of a line up to a column, with the code units and bytes counted so far. -/
def bytesUpToColumn (column counted bytes : Nat) : List Char → Option Nat
  | [] => some bytes
  | c :: rest =>
      if Text.isLineEnd c then some bytes
      else do
        let wider ← plus counted (Text.unitsOf c)
        if wider ≤ column then
          bytesUpToColumn column wider (← plus bytes c.utf8Size) rest
        else some bytes

/-- A line map whose starts are stored. -/
def stored (m : LineMap) : LineMap := ⟨m.text, m.starts.map word⟩

def position (m : LineMap) (offset : Nat) : Option Position := do
  let line := (stored m).lineAt offset
  let stop := min offset (Text.byteLength m.text)
  let start := min (((stored m).lineStart? line).getD 0) stop
  return ⟨word line, ← units 0 ((Text.slice m.text start stop).getD [])⟩

def offset? (m : LineMap) (p : Position) : Option (Option Nat) :=
  match (stored m).lineStart? p.line with
  | none => some none
  | some start => do
      let stop := ((stored m).lineStart? (p.line + 1)).getD (word (Text.byteLength m.text))
      let bytes ← bytesUpToColumn p.column 0 0 ((Text.slice m.text start stop).getD [])
      return some (← plus start bytes)

theorem plus_of_le {a b : Nat} (fits : a + b ≤ maxOffset) : plus a b = some (a + b) := if_pos fits

end Narrow

namespace Text

theorem unitsOf_le_utf8Size (c : Char) : unitsOf c ≤ c.utf8Size := by
  unfold unitsOf
  split
  · exact c.utf8Size_pos
  · next beyond =>
      have wide : c.utf8Size ≠ 1 := fun one => by
        have small : c.toNat ≤ 127 := Char.utf8Size_eq_one_iff.mp one
        omega
      have pos := c.utf8Size_pos
      omega

theorem units_le_byteLength (text : List Char) : units text ≤ byteLength text := by
  induction text with
  | nil => exact Nat.le_refl 0
  | cons c rest ih =>
      have first := unitsOf_le_utf8Size c
      rw [units, byteLength_cons]
      omega

theorem byteLength_of_takeBytes {count : Nat} {text part : List Char}
    (h : takeBytes count text = some part) : byteLength part = count := by
  induction text generalizing count part with
  | nil =>
      cases count with
      | zero =>
          cases h
          rfl
      | succ count => cases h
  | cons c rest ih =>
      cases count with
      | zero =>
          cases h
          rfl
      | succ count =>
          rw [takeBytes] at h
          split at h
          · obtain ⟨others, taken, rfl⟩ := Option.map_eq_some_iff.mp h
            have := ih taken
            rw [byteLength_cons]
            omega
          · cases h

/-- What is cut from a text between two offsets reaches no further than the later one. -/
theorem slice_le (text : List Char) (start stop : Nat) :
    start + byteLength ((slice text start stop).getD []) ≤ max start stop := by
  cases cut : slice text start stop with
  | none => exact Nat.le_max_left _ _
  | some part =>
      rw [slice] at cut
      split at cut
      · obtain ⟨rest, -, taken⟩ := Option.bind_eq_some_iff.mp cut
        have := byteLength_of_takeBytes taken
        rw [Option.getD_some]
        omega
      · cases cut

/-- No line starts behind the end of a text. -/
theorem start_le_byteLength {text : List Char} {start : Nat}
    (member : start ∈ (LineMap.ofText text).starts) : start ≤ byteLength text := by
  have member : start ∈ lineStarts text := member
  rw [lineStarts, ← startsFrom_lines] at member
  have inside := startsFrom_le member
  rwa [flatten_lines, Nat.zero_add] at inside

/-- A text has no more line ends than bytes. -/
theorem lineAt_le (text : List Char) (offset : Nat) :
    (LineMap.ofText text).lineAt offset ≤ byteLength text := by
  obtain ⟨above, last, cut⟩ :=
    (List.eq_nil_or_concat' (lines text)).resolve_left (terminates_lines text).ne_nil
  have shape := terminates_lines text
  rw [cut] at shape
  have ends := shape.length_le
  have whole : byteLength above.flatten ≤ byteLength text := by
    rw [← flatten_lines text, cut, List.flatten_append, byteLength_append]
    exact Nat.le_add_right _ _
  have count : (LineMap.ofText text).starts.length = above.length + 1 := by
    have lines := lineCount_ofText text
    rwa [cut, List.length_append] at lines
  have taken := (List.takeWhile_sublist (· ≤ offset) (l := (LineMap.ofText text).starts)).length_le
  rw [LineMap.lineAt]
  omega

theorem bytesUpToColumn_le (column : Nat) (line : List Char) :
    bytesUpToColumn column line ≤ byteLength line := by
  obtain ⟨before, after, rfl, -, -, bytes⟩ := bytesUpToColumn_split column line
  rw [bytes, byteLength_append]
  exact Nat.le_add_right _ _

end Text

namespace Narrow

/-- Counting goes through when all that is counted fits. -/
theorem units_eq {line : List Char} {counted : Nat}
    (fits : counted + Text.units line ≤ maxOffset) :
    units counted line = some (counted + Text.units line) := by
  induction line generalizing counted with
  | nil => rfl
  | cons c rest ih =>
      rw [Text.units] at fits
      rw [units, plus_of_le (by omega), Option.bind_eq_bind, Option.bind_some, ih (by omega),
        Text.units, Nat.add_assoc]

theorem bytesUpToColumn_eq {line : List Char} {column counted bytes : Nat}
    (before : counted ≤ column) (unitsFit : counted + Text.units line ≤ maxOffset)
    (bytesFit : bytes + Text.byteLength line ≤ maxOffset) :
    bytesUpToColumn column counted bytes line =
      some (bytes + Text.bytesUpToColumn (column - counted) line) := by
  induction line generalizing counted bytes with
  | nil => rfl
  | cons c rest ih =>
      rw [Text.units] at unitsFit
      rw [Text.byteLength_cons] at bytesFit
      rw [bytesUpToColumn, Text.bytesUpToColumn]
      split
      · rfl
      · rw [plus_of_le (by omega), plus_of_le (by omega)]
        simp only [Option.bind_eq_bind, Option.bind_some]
        by_cases fits : counted + Text.unitsOf c ≤ column
        · have left : Text.unitsOf c ≤ column - counted := by omega
          rw [if_pos fits, if_pos left, ih fits (by omega) (by omega), Nat.sub_add_eq,
            Nat.add_assoc]
        · have none : ¬ Text.unitsOf c ≤ column - counted := by omega
          rw [if_neg fits, if_neg none]
          rfl

variable {text : List Char}

theorem text_ofText (text : List Char) : (LineMap.ofText text).text = text := rfl

theorem stored_ofText (short : Text.byteLength text ≤ maxOffset) :
    stored (.ofText text) = .ofText text := by
  have kept : ∀ start ∈ (LineMap.ofText text).starts, word start = start :=
    fun start member => word_of_le (Nat.le_trans (Text.start_le_byteLength member) short)
  exact congrArg (LineMap.mk text) ((List.map_congr_left kept).trans (List.map_id _))

/-- Nothing is lost of the position of an offset, wherever the offset is. -/
theorem position_eq (short : Text.byteLength text ≤ maxOffset) (offset : Nat) :
    position (.ofText text) offset = some ((LineMap.ofText text).position offset) := by
  have line : word ((LineMap.ofText text).lineAt offset) = (LineMap.ofText text).lineAt offset :=
    word_of_le (Nat.le_trans (Text.lineAt_le text offset) short)
  have fits : ∀ start stop, start ≤ stop → stop ≤ Text.byteLength text →
      0 + Text.units ((Text.slice text start stop).getD []) ≤ maxOffset := by
    intro start stop ordered inside
    have units := Text.units_le_byteLength ((Text.slice text start stop).getD [])
    have bytes := Text.slice_le text start stop
    omega
  unfold position
  rw [stored_ofText short, text_ofText]
  dsimp only
  rw [line, units_eq (fits _ _ (Nat.min_le_right _ _) (Nat.min_le_right _ _)), Nat.zero_add]
  rfl

/-- No sum is too large on the way to the offset of a position. -/
theorem offset?_eq (short : Text.byteLength text ≤ maxOffset) (p : Position) :
    offset? (.ofText text) p = some ((LineMap.ofText text).offset? p) := by
  unfold offset? LineMap.offset?
  rw [stored_ofText short, text_ofText, word_of_le short]
  cases known : (LineMap.ofText text).lineStart? p.line with
  | none => rfl
  | some start =>
      have first : start ≤ Text.byteLength text :=
        Text.start_le_byteLength (List.mem_of_getElem? known)
      have last : ((LineMap.ofText text).lineStart? (p.line + 1)).getD (Text.byteLength text) ≤
          Text.byteLength text := by
        cases next : (LineMap.ofText text).lineStart? (p.line + 1) with
        | none => exact Nat.le_refl _
        | some stop => exact Text.start_le_byteLength (List.mem_of_getElem? next)
      generalize ((LineMap.ofText text).lineStart? (p.line + 1)).getD (Text.byteLength text) = stop
        at last ⊢
      have bytes := Text.slice_le text start stop
      have units := Text.units_le_byteLength ((Text.slice text start stop).getD [])
      have taken := Text.bytesUpToColumn_le p.column ((Text.slice text start stop).getD [])
      dsimp only
      rw [bytesUpToColumn_eq (Nat.zero_le _) (by omega) (by omega), Option.bind_eq_bind,
        Option.bind_some, Nat.zero_add, Nat.sub_zero, plus_of_le (by omega)]
      rfl

end Narrow

end ParameterHints
