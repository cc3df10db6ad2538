/-! # Cutting a text at byte offsets

Offsets count the bytes of the UTF-8 encoding, so an offset may fall inside a character. A cut
there has no answer.
-/

namespace ParameterHints.Text

/-- The number of bytes that encode a text. -/
def byteLength : List Char → Nat
  | [] => 0
  | c :: rest => c.utf8Size + byteLength rest

/-- The text without its first `n` bytes. -/
def dropBytes : Nat → List Char → Option (List Char)
  | 0, text => some text
  | _ + 1, [] => none
  | n + 1, c :: rest =>
      if c.utf8Size ≤ n + 1 then dropBytes (n + 1 - c.utf8Size) rest else none

/-- The first `n` bytes of a text. -/
def takeBytes : Nat → List Char → Option (List Char)
  | 0, _ => some []
  | _ + 1, [] => none
  | n + 1, c :: rest =>
      if c.utf8Size ≤ n + 1 then (takeBytes (n + 1 - c.utf8Size) rest).map (c :: ·) else none

/-- The text between two byte offsets, when both are character boundaries of it and in order. -/
def slice (text : List Char) (start stop : Nat) : Option (List Char) :=
  if start ≤ stop then (dropBytes start text).bind (takeBytes (stop - start)) else none

@[simp] theorem byteLength_append (a b : List Char) :
    byteLength (a ++ b) = byteLength a + byteLength b := by
  induction a with
  | nil => simp [byteLength]
  | cons c rest ih => simp [byteLength, ih, Nat.add_assoc]

/-- Dropping the bytes of a leading part leaves the rest. -/
theorem dropBytes_append (a b : List Char) : dropBytes (byteLength a) (a ++ b) = some b := by
  induction a with
  | nil => simp [byteLength, dropBytes]
  | cons c rest ih =>
      have pos := c.utf8Size_pos
      obtain ⟨n, hn⟩ : ∃ n, c.utf8Size + byteLength rest = n + 1 :=
        ⟨c.utf8Size + byteLength rest - 1, by omega⟩
      have fits : c.utf8Size ≤ n + 1 := by omega
      have left : n + 1 - c.utf8Size = byteLength rest := by omega
      simp [byteLength, hn, dropBytes, fits, left, ih]

theorem takeBytes_append (a b : List Char) : takeBytes (byteLength a) (a ++ b) = some a := by
  induction a with
  | nil => simp [byteLength, takeBytes]
  | cons c rest ih =>
      have pos := c.utf8Size_pos
      obtain ⟨n, hn⟩ : ∃ n, c.utf8Size + byteLength rest = n + 1 :=
        ⟨c.utf8Size + byteLength rest - 1, by omega⟩
      have fits : c.utf8Size ≤ n + 1 := by omega
      have left : n + 1 - c.utf8Size = byteLength rest := by omega
      simp [byteLength, hn, takeBytes, fits, left, ih]

theorem slice_append (a b c : List Char) :
    slice (a ++ (b ++ c)) (byteLength a) (byteLength a + byteLength b) = some b := by
  simp [slice, dropBytes_append, takeBytes_append]

end ParameterHints.Text
