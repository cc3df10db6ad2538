/-! # Byte ranges of a text

A span is a half-open range of byte offsets. `Span.ofBounds` is the checked way to make one; a
span written field by field may be reversed, and only its length notices.
-/

namespace ParameterHints

/-- The largest byte offset, line or column that is represented. -/
def maxOffset : Nat := 4294967295

/-- The bytes from `start` up to, not including, `stop`. -/
structure Span where
  start : Nat
  stop : Nat
  deriving DecidableEq

inductive SpanError where
  /-- The bounds are in the wrong order. -/
  | reversed (start stop : Nat)
  /-- The end would lie past `maxOffset`. -/
  | endTooLarge
  /-- The length of a reversed span. -/
  | negativeLength
  deriving DecidableEq

namespace SpanError

def message : SpanError → String
  | reversed start stop => s!"range start {start} is after end {stop}"
  | endTooLarge => "attempt to add with overflow"
  | negativeLength => "attempt to subtract with overflow"

end SpanError

namespace Span

/-- The span between two bounds, which have to be in order. -/
def ofBounds (start stop : Nat) : Except SpanError Span :=
  if start ≤ stop then .ok ⟨start, stop⟩ else .error (.reversed start stop)

def empty (offset : Nat) : Span := ⟨offset, offset⟩

def ofLength (start length : Nat) : Except SpanError Span :=
  if start + length ≤ maxOffset then .ok ⟨start, start + length⟩ else .error .endTooLarge

def length (s : Span) : Except SpanError Nat :=
  if s.start ≤ s.stop then .ok (s.stop - s.start) else .error .negativeLength

/-- Whether the bounds coincide; a reversed span is not empty. -/
def isEmpty (s : Span) : Bool := s.start == s.stop

/-- Whether `offset` lies inside, the end excluded. -/
def contains (s : Span) (offset : Nat) : Bool := s.start ≤ offset && offset < s.stop

/-- Whether both bounds of `inner` lie within the bounds of `outer`. -/
def encloses (outer inner : Span) : Bool := outer.start ≤ inner.start && inner.stop ≤ outer.stop

@[simp] theorem ofBounds_of_le {start stop : Nat} (h : start ≤ stop) :
    ofBounds start stop = .ok ⟨start, stop⟩ := if_pos h

end Span

end ParameterHints
