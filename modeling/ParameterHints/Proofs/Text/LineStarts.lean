import ParameterHints.Proofs.Text.ByteCut
import ParameterHints.Proofs.Text.Order

/-! # Where lines start

The starts of a line map cut a text into its lines, and there is no other way to cut it: a carriage
return in front of a line feed belongs to the same line end, any other one ends a line alone. They
can be found in the bytes of the text, since a line feed or a carriage return is a byte that no
other character has.
-/

namespace ParameterHints

open Glob (bytesOf)

namespace Text

/-- The offsets behind the bytes that end a line, with the first byte at `offset`. -/
def startsOfBytes (offset : Nat) : List UInt8 → List Nat
  | [] => []
  | b :: rest =>
      if b = 10 ∨ (b = 13 ∧ rest.head? ≠ some 10) then
        (offset + 1) :: startsOfBytes (offset + 1) rest
      else startsOfBytes (offset + 1) rest

variable {c : Char} {text content ending behind : List Char} {cut : List (List Char)}

/-! ## The one cut of a text -/

theorem lines_plain (plain : Plain content) : lines content = [content] := by
  induction content with
  | nil => rfl
  | cons c rest ih =>
      obtain ⟨first, others⟩ := List.forall_mem_cons.mp plain
      simp only [isLineEnd, Bool.or_eq_false_iff, beq_eq_false_iff_ne] at first
      rw [lines, if_neg (by simp [first]), ih others]
      rfl

theorem lines_ended (plain : Plain content) (ends : Ending behind ending) :
    lines (content ++ (ending ++ behind)) = (content ++ ending) :: lines behind := by
  induction content with
  | nil =>
      cases ends with
      | lineFeed => simp [lines]
      | both => simp [lines, startLine]
      | carriageReturn alone => simp [lines, alone]
  | cons c rest ih =>
      obtain ⟨first, others⟩ := List.forall_mem_cons.mp plain
      simp only [isLineEnd, Bool.or_eq_false_iff, beq_eq_false_iff_ne] at first
      rw [List.cons_append, lines, if_neg (by simp [first]), ih others]
      rfl

theorem CutsLines.eq_lines (h : CutsLines cut) : cut = lines cut.flatten := by
  induction h with
  | last plain => rw [List.flatten_singleton, lines_plain plain]
  | line plain ends _ ih => rw [List.flatten_cons, List.append_assoc, lines_ended plain ends, ← ih]

/-- Between the starts of lines stand the lines. -/
theorem slices_startsFrom {above : List Char} {below : List (List Char)}
    (whole : text = above ++ below.flatten) :
    List.zipWith (slice text) (startsFrom (byteLength above) below)
      ((startsFrom (byteLength above) below).tail ++ [byteLength text]) = below.map some := by
  induction below generalizing above with
  | nil => rfl
  | cons line rest ih =>
      have next : text = (above ++ line) ++ rest.flatten := by
        rw [whole, List.flatten_cons, List.append_assoc]
      have first : slice text (byteLength above) (byteLength above + byteLength line) =
          some line := by
        rw [whole, List.flatten_cons]
        exact slice_append _ _ _
      have later := ih next
      rw [byteLength_append] at later
      rw [startsFrom, List.tail_cons, List.map_cons]
      cases rest with
      | nil =>
          have length : byteLength text = byteLength above + byteLength line := by
            rw [next]
            simp
          rw [length, startsFrom, List.nil_append, List.zipWith_cons_cons, first]
          rfl
      | cons second more =>
          rw [startsFrom, List.tail_cons] at later
          rw [startsFrom, List.cons_append, List.zipWith_cons_cons, first, later]

/-! ## Line ends among bytes -/

/-- A byte below 128 is a character of its own. -/
theorem toNat_of_low_byte {b : UInt8} (member : b ∈ bytesOf c) (low : b.toNat < 128) :
    c.toNat = b.toNat := by
  rw [bytesOf_eq] at member
  rcases List.mem_cons.mp member with rfl | later
  · rw [UInt8.toNat_ofNat', Nat.mod_eq_of_lt (lead_lt (toNat_lt c))] at low ⊢
    simp only [lead, following] at low ⊢
    split_ifs at low ⊢ <;> simp only [mark, Nat.pow_zero, Nat.div_one] at low ⊢ <;> omega
  · have high := (continues_of_mem_continuation later).1
    omega

theorem mem_bytesOf_iff (b : UInt8) (low : b.toNat < 128) (own : bytesOf c = [b]) {d : Char} :
    b ∈ bytesOf d ↔ d = c := by
  constructor
  · intro member
    have first : c.toNat = b.toNat := toNat_of_low_byte (by simp [own]) low
    exact Char.toNat_inj.mp ((toNat_of_low_byte member low).trans first.symm)
  · rintro rfl
    simp [own]

theorem lineFeed_mem_iff : 10 ∈ bytesOf c ↔ c = '\n' := mem_bytesOf_iff 10 (by decide) rfl

theorem carriageReturn_mem_iff : 13 ∈ bytesOf c ↔ c = '\r' := mem_bytesOf_iff 13 (by decide) rfl

theorem head_bytes_iff (text : List Char) :
    (text.flatMap bytesOf).head? = some 10 ↔ text.head? = some '\n' := by
  cases text with
  | nil => simp
  | cons c rest =>
      rw [List.flatMap_cons, List.head?_cons, Option.some_inj]
      constructor
      · intro first
        rw [bytesOf_eq, List.cons_append, List.head?_cons, Option.some_inj] at first
        rw [← lineFeed_mem_iff, bytesOf_eq, first]
        exact List.mem_cons_self
      · rintro rfl
        rfl

/-- No line starts behind bytes that end none. -/
theorem startsOfBytes_append {front : List UInt8} (feed : 10 ∉ front) (ret : 13 ∉ front)
    (offset : Nat) (rest : List UInt8) :
    startsOfBytes offset (front ++ rest) = startsOfBytes (offset + front.length) rest := by
  induction front generalizing offset with
  | nil => rfl
  | cons b more ih =>
      obtain ⟨first, feed⟩ := not_or.mp (List.mem_cons.not.mp feed)
      obtain ⟨second, ret⟩ := not_or.mp (List.mem_cons.not.mp ret)
      rw [List.cons_append, startsOfBytes, if_neg (by simp [Ne.symm first, Ne.symm second]),
        ih feed ret, List.length_cons, Nat.add_assoc, Nat.add_comm 1]

/-- The bytes of a text start lines where its characters do. -/
theorem startsOfBytes_eq (offset : Nat) (text : List Char) :
    startsOfBytes offset (text.flatMap bytesOf) = laterLineStarts offset text := by
  induction text generalizing offset with
  | nil => rfl
  | cons c rest ih =>
      rw [List.flatMap_cons, laterLineStarts]
      by_cases feed : c = '\n'
      · have byte : bytesOf '\n' = [10] := rfl
        rw [feed, byte, List.singleton_append, startsOfBytes, if_pos (.inl rfl), ih,
          if_pos (.inl rfl)]
        rfl
      by_cases ret : c = '\r'
      · have byte : bytesOf '\r' = [13] := rfl
        have size : '\r'.utf8Size = 1 := rfl
        rw [ret, byte, List.singleton_append, startsOfBytes]
        simp [head_bytes_iff, ih, size]
      · rw [startsOfBytes_append (lineFeed_mem_iff.not.mpr feed) (carriageReturn_mem_iff.not.mpr ret),
          ih, if_neg (by simp [feed, ret]), bytesOf, String.length_utf8EncodeChar]

end Text

namespace LineMap

/-- What stands between one start of a line and the next, or the end of the text. -/
def pieces (m : LineMap) : List (Option (List Char)) :=
  List.zipWith (Text.slice m.text) m.starts (m.starts.tail ++ [Text.byteLength m.text])

theorem pieces_ofText (text : List Char) : (ofText text).pieces = (Text.lines text).map some := by
  have starts : (ofText text).starts = Text.startsFrom 0 (Text.lines text) :=
    (Text.startsFrom_lines 0 text).symm
  rw [pieces, starts]
  have whole : text = [] ++ (Text.lines text).flatten := (Text.flatten_lines text).symm
  exact Text.slices_startsFrom whole

theorem boundary_of_mem_starts {text : List Char} {start : Nat}
    (member : start ∈ (ofText text).starts) : Text.IsBoundary text start := by
  rcases List.mem_cons.mp member with rfl | later
  · exact ⟨[], text, rfl, rfl⟩
  · obtain ⟨before, c, after, rfl, -, rfl⟩ := Text.ended_of_mem_laterLineStarts later
    exact ⟨before ++ [c], after, by simp, by simp⟩

/-- The starts of lines are those that the bytes of a text tell, also in numbers of 32 bits. They
    begin with 0, increase and are boundaries of characters, and the pieces between them are the
    text, cut into lines in the only way there is. -/
theorem starts_cut_lines (text : List Char) (short : Text.byteLength text ≤ maxOffset) :
    Narrow.stored (ofText text) = ofText text ∧
    (ofText text).starts = 0 :: Text.startsOfBytes 0 (text.flatMap bytesOf) ∧
    (ofText text).starts.Pairwise (· < ·) ∧
    (∀ start ∈ (ofText text).starts,
      start ≤ Text.byteLength text ∧ Text.IsBoundary text start) ∧
    ∃ lines, (ofText text).pieces = lines.map some ∧ lines.length = (ofText text).lineCount ∧
      lines.flatten = text ∧ Text.CutsLines lines ∧
      ∀ cut, cut.flatten = text → Text.CutsLines cut → cut = lines := by
  refine ⟨Narrow.stored_ofText short, ?_, starts_increase text, ?_, Text.lines text,
    pieces_ofText text, (Text.lineCount_ofText text).symm, Text.flatten_lines text,
    Text.cutsLines_lines text, ?_⟩
  · exact congrArg (List.cons 0) (Text.startsOfBytes_eq 0 text).symm
  · exact fun start member => ⟨Text.start_le_byteLength member, boundary_of_mem_starts member⟩
  · rintro cut rfl cuts
    exact cuts.eq_lines

/-- A character of four bytes, a carriage return with its line feed, one that stands alone, another
    with its line feed, and a last line without an end. -/
theorem mixedLines_cut :
    Text.byteLength mixedLines ≤ maxOffset ∧ (ofText mixedLines).starts = [0, 6, 7, 9] ∧
    (ofText mixedLines).pieces =
      [some ['😀', '\r', '\n'], some ['\r'], some ['\r', '\n'], some ['é']] ∧
    Text.CutsLines [['😀', '\r', '\n'], ['\r'], ['\r', '\n'], ['é']] ∧
    ¬ Text.CutsLines [['😀', '\r'], ['\n'], ['\r'], ['\r', '\n'], ['é']] := by
  have short : Text.byteLength mixedLines ≤ maxOffset := by decide +kernel
  obtain ⟨-, starts, -, -, lines, pieces, -, -, cuts, unique⟩ := starts_cut_lines mixedLines short
  have found : (ofText mixedLines).pieces =
      [some ['😀', '\r', '\n'], some ['\r'], some ['\r', '\n'], some ['é']] := by decide +kernel
  obtain rfl : lines = [['😀', '\r', '\n'], ['\r'], ['\r', '\n'], ['é']] :=
    List.map_injective_iff.mpr (Option.some_injective _) (pieces.symm.trans found)
  refine ⟨short, starts.trans (by decide +kernel), found, cuts, fun other => ?_⟩
  cases unique _ rfl other

end LineMap

end ParameterHints
