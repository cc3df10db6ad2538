import ParameterHints.Text.Segments

/-! # The last dot of a text

A dotted text falls apart at its last dot. The part behind that has no dot, and it is the last
segment of the text.
-/

namespace ParameterHints.Text

section Segments

variable {c separator : Char}

theorem splitFirst_cons_self (separator : Char) (rest : List Char) :
    splitFirst separator (separator :: rest) = ([], segments separator rest) := by
  simp [splitFirst, segments]

theorem splitFirst_cons_of_ne (other : c ≠ separator) (rest : List Char) :
    splitFirst separator (c :: rest) =
      (c :: (splitFirst separator rest).1, (splitFirst separator rest).2) := by
  simp [splitFirst, other]

/-- A text is its first segment and the others with a separator before each. -/
theorem splitFirst_join (separator : Char) (text : List Char) :
    (splitFirst separator text).1 ++ (splitFirst separator text).2.flatMap (separator :: ·) =
      text := by
  induction text with
  | nil => rfl
  | cons c rest ih =>
      by_cases same : c = separator
      · rw [same, splitFirst_cons_self, segments, List.flatMap_cons, List.cons_append, ih]
        rfl
      · rw [splitFirst_cons_of_ne same, List.cons_append, ih]

theorem not_mem_segment (separator : Char) (text : List Char) :
    ∀ segment ∈ segments separator text, separator ∉ segment := by
  induction text with
  | nil => simp [segments, splitFirst]
  | cons c rest ih =>
      rw [segments] at ih ⊢
      by_cases same : c = separator
      · rw [same, splitFirst_cons_self]
        rintro segment (_ | ⟨_, later⟩)
        · exact List.not_mem_nil
        · exact ih segment later
      · rw [splitFirst_cons_of_ne same]
        rintro segment (_ | ⟨_, later⟩)
        · simpa [Ne.symm same] using ih _ List.mem_cons_self
        · exact ih segment (List.mem_cons_of_mem _ later)

/-- A separator with no other behind it is the last one. -/
theorem eq_of_append_separator {front front' last last' : List Char} (plain : separator ∉ last)
    (plain' : separator ∉ last')
    (same : front ++ separator :: last = front' ++ separator :: last') :
    front = front' ∧ last = last' := by
  rcases List.append_eq_append_iff.mp same with ⟨_ | ⟨_, more⟩, rfl, rest⟩ |
    ⟨_ | ⟨_, more⟩, rfl, rest⟩
  · cases rest
    exact ⟨(List.append_nil _).symm, rfl⟩
  · cases rest
    simp at plain
  · cases rest
    exact ⟨List.append_nil _, rfl⟩
  · cases rest
    simp at plain'

end Segments

/-- A text has no dot, or it is cut at the last one. -/
inductive CutAtLastDot : String → Option String → String → Prop where
  | whole {text} : '.' ∉ text.toList → CutAtLastDot text none text
  | behind {front last} : '.' ∉ last.toList → CutAtLastDot (front ++ "." ++ last) (some front) last

namespace CutAtLastDot

variable {text last last' : String} {front? front?' : Option String}

/-- There is one last dot. -/
theorem unique (h : CutAtLastDot text front? last) (h' : CutAtLastDot text front?' last') :
    front? = front?' ∧ last = last' := by
  cases h with
  | whole plain =>
      cases h' with
      | whole => exact ⟨rfl, rfl⟩
      | behind => simp at plain
  | @behind front _ plain =>
      generalize same : front ++ "." ++ last = text at h'
      cases h' with
      | whole plain' => simp [← same] at plain'
      | @behind front' _ plain' =>
          rw [← String.toList_inj] at same
          obtain ⟨fronts, lasts⟩ := eq_of_append_separator plain plain' (by simpa using same)
          rw [String.toList_inj] at fronts lasts
          exact ⟨congrArg some fronts, lasts⟩

/-- Behind the last dot of a text is its last segment. -/
theorem exists_front (text : String) :
    ∃ front?, CutAtLastDot text front? (String.ofList (lastSegment '.' text.toList)) := by
  obtain ⟨⟨first, others⟩, parts⟩ : ∃ parts, splitFirst '.' text.toList = parts := ⟨_, rfl⟩
  have plain : ∀ segment ∈ first :: others, '.' ∉ segment := by
    simpa [segments, parts] using not_mem_segment '.' text.toList
  have join : first ++ others.flatMap ('.' :: ·) = text.toList := by
    simpa [parts] using splitFirst_join '.' text.toList
  have found : lastSegment '.' text.toList = others.getLast?.getD first := by
    rw [lastSegment, parts]
  rw [found]
  rcases List.eq_nil_or_concat others with rfl | ⟨before, last, rfl⟩
  · have whole : String.ofList first = text := by simp [← String.toList_inj, ← join]
    refine ⟨none, ?_⟩
    rw [List.getLast?_nil, Option.getD_none, whole]
    exact .whole (by simpa [← whole] using plain first List.mem_cons_self)
  · have behind : String.ofList (first ++ before.flatMap ('.' :: ·)) ++ "." ++ String.ofList last =
        text := by
      simp [← String.toList_inj, ← join]
    refine ⟨some (String.ofList (first ++ before.flatMap ('.' :: ·))), ?_⟩
    rw [List.concat_eq_append, List.getLast?_concat, Option.getD_some, ← behind]
    exact .behind (by simpa using plain last (by simp))

/-- A text that is cut has its last segment behind the last dot. -/
theorem lastSegment_eq (h : CutAtLastDot text front? last) :
    String.ofList (lastSegment '.' text.toList) = last := by
  obtain ⟨_, cut⟩ := exists_front text
  exact (cut.unique h).2

end CutAtLastDot

end ParameterHints.Text
