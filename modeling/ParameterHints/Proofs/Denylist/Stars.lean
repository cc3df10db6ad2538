import ParameterHints.Proofs.Denylist.Parentheses

/-! # Patterns with stars

A pattern without a parameter list looks at full names only. Its stars stand for any characters,
dots, slashes and line ends among them, and the pieces between the stars stand for themselves.
-/

namespace ParameterHints.MethodPattern

/-- A pattern of plain characters in which no two stars are neighbours matches the full names that
    consist of its pieces in order, with any characters in place of each star, whatever the
    parameters are. So a text with a star behind it matches what begins with the text, and a text
    with a star in front of it matches what ends in the text. -/
theorem stars_cover_anything (pattern : String) (solid : Text.Solid pattern.toList)
    (unlisted : Unlisted pattern.toList) (h : Glob.Wildcarded pattern.toList) :
    ∃ q, parse pattern.toList = .ok q ∧
      (∀ info, q.isMatch info ↔
        Glob.Strung (pattern.toList.splitOn '*') info.fullName.toList) ∧
      (∀ stem, '*' ∉ stem → pattern.toList = stem ++ ['*'] →
        ∀ info, q.isMatch info ↔ stem <+: info.fullName.toList) ∧
      ∀ stem, '*' ∉ stem → pattern.toList = '*' :: stem →
        ∀ info, q.isMatch info ↔ stem <:+ info.fullName.toList := by
  obtain ⟨q, parsed, matching⟩ := parse_wildcarded solid (unlisted_iff.mp unlisted).1 h
  refine ⟨q, parsed, matching, fun stem unstarred leading info => ?_,
    fun stem unstarred trailing info => ?_⟩
  · rw [matching, leading, Glob.strung_leading_iff unstarred]
  · rw [matching, trailing, Glob.strung_trailing_iff unstarred]

/-- A pattern whose pieces hold letters of two bytes each. The stars of the name that is found stand
    for a line end and a slash, and it has the middle piece twice. -/
theorem accented_stars_cover :
    let pattern := "é*.ß.*ü"
    Text.Solid pattern.toList ∧ Unlisted pattern.toList ∧ Glob.Wildcarded pattern.toList ∧
      ∃ q, parse pattern.toList = .ok q ∧ q.isMatch ⟨"éa\n.ß./.ß.ü", ["x"]⟩ ∧
        ∀ info, q.isMatch info ↔
          Glob.Strung ["é".toList, ".ß.".toList, "ü".toList] info.fullName.toList := by
  intro pattern
  have solid : Text.Solid pattern.toList := by decide +kernel
  have unlisted : Unlisted pattern.toList := by decide +kernel
  have wildcarded : Glob.Wildcarded pattern.toList := by decide +kernel
  have pieces : pattern.toList.splitOn '*' = ["é".toList, ".ß.".toList, "ü".toList] := by
    decide +kernel
  obtain ⟨q, parsed, matching, -⟩ := stars_cover_anything pattern solid unlisted wildcarded
  rw [pieces] at matching
  have found : Glob.Strung ["é".toList, ".ß.".toList, "ü".toList] "éa\n.ß./.ß.ü".toList :=
    .next "é".toList "a\n.ß./".toList (.next ".ß.".toList [] (.last _))
  exact ⟨solid, unlisted, wildcarded, q, parsed, (matching _).mpr found, matching⟩

end ParameterHints.MethodPattern
