import Mathlib.Data.String.Basic
import ParameterHints.Text.Slice

/-! # Character boundaries

An offset that no character of a text straddles, and an offset right behind a separator. Both stay
what they are when more text is written behind them.
-/

namespace ParameterHints.Text

/-- `offset` is the number of bytes of a leading part of `text`. -/
def IsBoundary (text : List Char) (offset : Nat) : Prop :=
  ∃ before after, text = before ++ after ∧ byteLength before = offset

/-- The character in front of `offset` is an opening parenthesis or a blank, and it begins at `lo`
    or later. -/
def IsSeparated (text : List Char) (lo offset : Nat) : Prop :=
  ∃ before c after, text = before ++ c :: after ∧ (c = '(' ∨ c = ' ') ∧
    lo ≤ byteLength before ∧ byteLength before + c.utf8Size = offset

@[simp] theorem byteLength_nil : byteLength [] = 0 := rfl

@[simp] theorem byteLength_cons (c : Char) (rest : List Char) :
    byteLength (c :: rest) = c.utf8Size + byteLength rest := rfl

theorem byteLength_eq_zero {text : List Char} (h : byteLength text = 0) : text = [] := by
  cases text with
  | nil => rfl
  | cons c rest =>
      have pos := c.utf8Size_pos
      simp only [byteLength_cons] at h
      omega

theorem byteLength_toList (s : String) : byteLength s.toList = s.utf8ByteSize := by
  have same : ∀ text, byteLength text = String.utf8Len text := by
    intro text
    induction text with
    | nil => rfl
    | cons c rest ih => rw [byteLength_cons, ih, String.utf8Len_cons, Nat.add_comm]
  rw [same, ← String.utf8ByteSize_ofList, String.ofList_toList]

/-- A leading part is known by its length. -/
theorem before_unique {before after before' after' : List Char}
    (same : before ++ after = before' ++ after') (length : byteLength before = byteLength before') :
    before = before' := by
  rcases List.append_eq_append_iff.mp same with ⟨more, rfl, -⟩ | ⟨more, rfl, -⟩
  · rw [byteLength_append] at length
    rw [show more = [] from byteLength_eq_zero (by omega), List.append_nil]
  · rw [byteLength_append] at length
    rw [show more = [] from byteLength_eq_zero (by omega), List.append_nil]

namespace IsBoundary

theorem length (text : List Char) : IsBoundary text (byteLength text) := ⟨text, [], by simp, rfl⟩

theorem le {text : List Char} {offset : Nat} (h : IsBoundary text offset) :
    offset ≤ byteLength text := by
  obtain ⟨before, after, rfl, rfl⟩ := h
  simp

theorem append {text : List Char} {offset : Nat} (h : IsBoundary text offset) (more : List Char) :
    IsBoundary (text ++ more) offset := by
  obtain ⟨before, after, rfl, same⟩ := h
  exact ⟨before, after ++ more, List.append_assoc .., same⟩

end IsBoundary

namespace IsSeparated

theorem lt {text : List Char} {lo offset : Nat} (h : IsSeparated text lo offset) : lo < offset := by
  obtain ⟨before, c, after, -, -, le, rfl⟩ := h
  have pos := c.utf8Size_pos
  omega

theorem lower {text : List Char} {lo lo' offset : Nat} (le : lo' ≤ lo)
    (h : IsSeparated text lo offset) : IsSeparated text lo' offset := by
  obtain ⟨before, c, after, split, separator, first, last⟩ := h
  exact ⟨before, c, after, split, separator, Nat.le_trans le first, last⟩

theorem append {text : List Char} {lo offset : Nat} (h : IsSeparated text lo offset)
    (more : List Char) : IsSeparated (text ++ more) lo offset := by
  obtain ⟨before, c, after, rfl, separator, first, last⟩ := h
  exact ⟨before, c, after ++ more, List.append_assoc .., separator, first, last⟩

theorem boundary {text : List Char} {lo offset : Nat} (h : IsSeparated text lo offset) :
    IsBoundary text offset := by
  obtain ⟨before, c, after, rfl, -, -, rfl⟩ := h
  exact ⟨before ++ [c], after, by simp, by simp⟩

/-- Behind a text that ends with a separator comes a separated offset. -/
theorem of_written (text written : List Char) {c : Char} (separator : c = '(' ∨ c = ' ') :
    IsSeparated (text ++ (written ++ [c])) (byteLength text)
      (byteLength (text ++ (written ++ [c]))) := by
  refine ⟨text ++ written, c, [], by simp, separator, ?_, ?_⟩
  · simp
  · simp [Nat.add_assoc]

end IsSeparated

end ParameterHints.Text
