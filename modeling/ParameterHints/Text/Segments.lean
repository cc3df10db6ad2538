/-! # Splitting a text at a separator

A text with `n` separators has `n + 1` segments, any of which may be empty.
-/

namespace ParameterHints.Text

/-- The part before the first separator, and the segments after it. -/
def splitFirst (separator : Char) : List Char → List Char × List (List Char)
  | [] => ([], [])
  | c :: rest =>
      let (first, others) := splitFirst separator rest
      if c = separator then ([], first :: others) else (c :: first, others)

def segments (separator : Char) (text : List Char) : List (List Char) :=
  let (first, others) := splitFirst separator text
  first :: others

theorem segments_eq_splitOn (separator : Char) (text : List Char) :
    segments separator text = text.splitOn separator := by
  induction text with
  | nil => rfl
  | cons c rest ih =>
      rw [List.splitOn_cons_eq_if_modifyHead, ← ih, segments, segments, splitFirst]
      by_cases same : c = separator <;> simp [same]

/-- The part after the last separator, or the whole text when there is none. -/
def lastSegment (separator : Char) (text : List Char) : List Char :=
  let (first, others) := splitFirst separator text
  others.getLast?.getD first

end ParameterHints.Text
