import Mathlib.Data.List.Basic
import Mathlib.Data.List.TakeWhile
import ParameterHints.Text.Blank

/-! # Trimming

Trimming takes the blanks from both ends of a text and leaves the rest as it is. So a text that
neither begins nor ends with a blank comes back from any blanks that are written around it.
-/

namespace ParameterHints.Text

theorem trimEnd_concat {c : Char} (solid : ¬ isBlank c) (text : List Char) :
    trimEnd (text ++ [c]) = text ++ [c] := by
  induction text with
  | nil => simp [trimEnd, solid]
  | cons first rest ih =>
      rw [List.cons_append, trimEnd, ih]
      cases rest <;> rfl

/-- Nothing is trimmed from a text that neither begins nor ends with a blank. -/
theorem trim_of_edges {text : List Char} (first : ∀ c ∈ text.head?, ¬ isBlank c)
    (last : ∀ c ∈ text.getLast?, ¬ isBlank c) : trim text = text := by
  have kept : text.dropWhile isBlank = text := by
    cases text with
    | nil => rfl
    | cons c rest => exact List.dropWhile_cons_of_neg (first c rfl)
  rw [trim, kept]
  rcases List.eq_nil_or_concat' text with rfl | ⟨before, c, rfl⟩
  · rfl
  · exact trimEnd_concat (last c (by simp)) before

theorem trimEnd_cons {c : Char} (solid : ¬ isBlank c) (rest : List Char) :
    trimEnd (c :: rest) = c :: trimEnd rest := by
  rw [trimEnd]
  split
  · next blank => rw [blank, if_neg solid]
  · rfl

theorem last_trimEnd (text : List Char) : ∀ c ∈ (trimEnd text).getLast?, ¬ isBlank c := by
  induction text with
  | nil => simp [trimEnd]
  | cons first rest ih =>
      rw [trimEnd]
      split
      · by_cases blank : isBlank first <;> simp [blank]
      · next solid =>
          obtain ⟨c, more, kept⟩ := List.exists_cons_of_ne_nil solid
          rw [kept] at ih ⊢
          rwa [List.getLast?_cons_cons]

/-- What is trimmed has no blanks left to trim. -/
theorem trim_trim (text : List Char) : trim (trim text) = trim text := by
  refine trim_of_edges (fun c head => ?_) (last_trimEnd _)
  rw [trim] at head
  cases left : text.dropWhile isBlank with
  | nil => simp [left, trimEnd] at head
  | cons first rest =>
      have solid : ¬ isBlank first := by
        have front := List.head?_dropWhile_not isBlank text
        simpa [left] using front
      rw [left, trimEnd_cons solid] at head
      cases head
      exact solid


/-! ## Blanks around a text -/

/-- A text of nothing but blanks. -/
def Blank (text : List Char) : Prop := ∀ c ∈ text, isBlank c

instance : DecidablePred Blank := fun text =>
  decidable_of_iff (text.all isBlank) List.all_eq_true

/-- A text that is not empty and neither begins nor ends with a blank. -/
structure Solid (text : List Char) : Prop where
  given : text ≠ []
  first : ∀ c ∈ text.head?, ¬ isBlank c
  last : ∀ c ∈ text.getLast?, ¬ isBlank c

instance : DecidablePred Solid := fun text =>
  decidable_of_iff
    (text ≠ [] ∧ text.head?.all (fun c => !isBlank c) ∧ text.getLast?.all fun c => !isBlank c)
    ⟨fun ⟨given, first, last⟩ => ⟨given, by simpa [Option.all_eq_true] using first,
        by simpa [Option.all_eq_true] using last⟩,
      fun h => ⟨h.given, by simpa [Option.all_eq_true] using h.first,
        by simpa [Option.all_eq_true] using h.last⟩⟩

/-- A text with blanks written around it. -/
def Pads (text written : List Char) : Prop :=
  ∃ before after, Blank before ∧ Blank after ∧ written = before ++ (text ++ after)

variable {text written : List Char}

theorem Blank.not_mem (blank : Blank text) {c : Char} (solid : ¬ isBlank c) : c ∉ text :=
  fun member => solid (blank c member)

theorem Pads.mem (h : Pads text written) {c : Char} (member : c ∈ written) :
    isBlank c ∨ c ∈ text := by
  obtain ⟨before, after, blank, blank', rfl⟩ := h
  rcases List.mem_append.mp member with front | rest
  · exact .inl (blank c front)
  · rcases List.mem_append.mp rest with inside | back
    · exact .inr inside
    · exact .inl (blank' c back)

theorem trimEnd_blank {after : List Char} (blank : Blank after) : trimEnd after = [] := by
  induction after with
  | nil => rfl
  | cons c rest ih =>
      obtain ⟨here, later⟩ := List.forall_mem_cons.mp blank
      simp [trimEnd, ih later, here]

theorem trimEnd_append_blank {after : List Char} (blank : Blank after) (text : List Char) :
    trimEnd (text ++ after) = trimEnd text := by
  induction text with
  | nil => exact trimEnd_blank blank
  | cons c rest ih => rw [List.cons_append, trimEnd, trimEnd, ih]

theorem trim_blank (blank : Blank text) : trim text = [] := by
  have gone : text.dropWhile isBlank = [] := List.dropWhile_eq_nil_iff.mpr blank
  rw [trim, gone, trimEnd]

/-- Only what the blanks stand around is left. -/
theorem Pads.trim_eq (h : Pads text written) (solid : Solid text) : trim written = text := by
  obtain ⟨before, after, blank, blank', rfl⟩ := h
  obtain ⟨c, rest, rfl⟩ := List.exists_cons_of_ne_nil solid.given
  have kept : (c :: rest ++ after).dropWhile isBlank = c :: rest ++ after :=
    List.dropWhile_cons_of_neg (solid.first c rfl)
  have whole : trim (c :: rest) = trimEnd (c :: rest) := by
    rw [trim, List.dropWhile_cons_of_neg (solid.first c rfl)]
  rw [trim, List.dropWhile_append_of_pos blank, kept, trimEnd_append_blank blank', ← whole]
  exact trim_of_edges solid.first solid.last

end ParameterHints.Text
