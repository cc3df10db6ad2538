import ParameterHints.Text.Slice
import ParameterHints.Text.Span

/-! # Lines and columns

Editors address a place by a line and a column, both counted from zero, where the column counts
UTF-16 code units. A line map knows the byte offset at which each line of a text starts and
converts between byte offsets and positions.

Lines end after a line feed, after a carriage return with a line feed behind it, and after a
carriage return that stands alone.
-/

namespace ParameterHints

/-- A line and a column in UTF-16 code units, both counted from zero. -/
structure Position where
  line : Nat
  column : Nat
  deriving DecidableEq

/-- Two positions; a range whose start is after its end is allowed. -/
structure PositionRange where
  start : Position
  stop : Position
  deriving DecidableEq

namespace Position

/-- Whether `a` is `b` or comes before it in reading order: by line, then by column. -/
def notAfter (a b : Position) : Bool :=
  a.line < b.line || (a.line == b.line && a.column ≤ b.column)

end Position

namespace Text

/-- The number of UTF-16 code units of a character. -/
def unitsOf (c : Char) : Nat := if c.toNat < 0x10000 then 1 else 2

/-- The number of UTF-16 code units of a text. -/
def units : List Char → Nat
  | [] => 0
  | c :: rest => unitsOf c + units rest

def isLineEnd (c : Char) : Bool := c == '\n' || c == '\r'

/-- The offsets at which lines start after the first one, for a text that begins at `offset`. -/
def laterLineStarts (offset : Nat) : List Char → List Nat
  | [] => []
  | c :: rest =>
      let next := offset + c.utf8Size
      if c = '\n' ∨ (c = '\r' ∧ rest.head? ≠ some '\n') then
        next :: laterLineStarts next rest
      else
        laterLineStarts next rest

def lineStarts (text : List Char) : List Nat := 0 :: laterLineStarts 0 text

/-- The number of bytes of the longest leading part that stays on its line and is at most
    `column` code units wide. -/
def bytesUpToColumn (column : Nat) : List Char → Nat
  | [] => 0
  | c :: rest =>
      if isLineEnd c then 0
      else if unitsOf c ≤ column then c.utf8Size + bytesUpToColumn (column - unitsOf c) rest
      else 0

end Text

/-- A text together with the offsets at which its lines start. -/
structure LineMap where
  text : List Char
  starts : List Nat

namespace LineMap

def ofText (text : List Char) : LineMap := ⟨text, Text.lineStarts text⟩

def lineCount (m : LineMap) : Nat := m.starts.length

def lineStart? (m : LineMap) (line : Nat) : Option Nat := m.starts[line]?

/-- The last line that starts at `offset` or before it. -/
def lineAt (m : LineMap) (offset : Nat) : Nat :=
  (m.starts.takeWhile (· ≤ offset)).length - 1

/-- The position of a byte offset. An offset past the end is taken for the end, and an offset
    inside a character has column zero. -/
def position (m : LineMap) (offset : Nat) : Position :=
  let line := m.lineAt offset
  let stop := min offset (Text.byteLength m.text)
  let start := min ((m.lineStart? line).getD 0) stop
  ⟨line, Text.units ((Text.slice m.text start stop).getD [])⟩

/-- The byte offset of a position. A column past the end of its line, or between the two units of
    a surrogate pair, goes back to the last place before it; a line that is not there has no
    offset. -/
def offset? (m : LineMap) (p : Position) : Option Nat :=
  (m.lineStart? p.line).map fun start =>
    let stop := (m.lineStart? (p.line + 1)).getD (Text.byteLength m.text)
    start + Text.bytesUpToColumn p.column ((Text.slice m.text start stop).getD [])

/-- The byte offsets of a range: without a start line it begins at the start of the text, and
    without an end line it goes to the end. -/
def offsets (m : LineMap) (r : PositionRange) : Nat × Nat :=
  ((m.offset? r.start).getD 0, (m.offset? r.stop).getD (Text.byteLength m.text))

end LineMap

/-- The range from the first to the last position that can be represented. -/
def PositionRange.everything : PositionRange := ⟨⟨0, 0⟩, ⟨maxOffset, maxOffset⟩⟩

end ParameterHints
