/-! # Regular expressions over bytes

Matching goes through partial derivatives: the expressions one of which has to match what is left
after a byte. There are finitely many of them, so a set of expressions serves as the state of the
match, and every byte is looked at once.
-/

namespace ParameterHints

/-- A set of bytes: the ranges, or everything outside them. -/
structure ByteSet where
  negated : Bool
  ranges : List (UInt8 × UInt8)
  deriving DecidableEq

namespace ByteSet

def all : ByteSet := ⟨true, []⟩

def single (b : UInt8) : ByteSet := ⟨false, [(b, b)]⟩

/-- Whether a byte belongs to the set. -/
def contains (s : ByteSet) (b : UInt8) : Bool :=
  s.ranges.any (fun (low, high) => low ≤ b && b ≤ high) != s.negated

end ByteSet

inductive ByteRegex where
  /-- The empty text. -/
  | empty
  /-- One byte of a set. -/
  | byte (set : ByteSet)
  /-- One text after the other. -/
  | seq (first second : ByteRegex)
  /-- Either text. -/
  | alt (first second : ByteRegex)
  /-- Any number of texts, one after the other. -/
  | star (body : ByteRegex)
  deriving DecidableEq

namespace ByteRegex

def anything : ByteRegex := star (byte .all)

def ofBytes : List UInt8 → ByteRegex
  | [] => empty
  | [b] => byte (.single b)
  | b :: rest => seq (byte (.single b)) (ofBytes rest)

/-- Whether the empty text matches. -/
def nullable : ByteRegex → Bool
  | empty | star _ => true
  | byte _ => false
  | seq first second => first.nullable && second.nullable
  | alt first second => first.nullable || second.nullable

/-- One expression after another, without a leading empty one. -/
def andThen : ByteRegex → ByteRegex → ByteRegex
  | empty, second => second
  | first, second => seq first second

/-- The expressions one of which has to match the rest of a text that begins with `b`. -/
def partials (b : UInt8) : ByteRegex → List ByteRegex
  | empty => []
  | byte set => if set.contains b then [empty] else []
  | seq first second =>
      (first.partials b).map (·.andThen second) ++
        if first.nullable then second.partials b else []
  | alt first second => first.partials b ++ second.partials b
  | star body => (body.partials b).map (·.andThen (star body))

/-- Whether one of several expressions matches the whole text. -/
def anyMatch : List ByteRegex → List UInt8 → Bool
  | states, [] => states.any nullable
  | states, b :: rest => anyMatch (states.flatMap (partials b)).eraseDups rest

def isMatch (r : ByteRegex) (text : List UInt8) : Bool := anyMatch [r] text

end ByteRegex

end ParameterHints
