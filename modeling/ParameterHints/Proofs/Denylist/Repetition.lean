import ParameterHints.Proofs.Denylist.Compilation

/-! # Repeated patterns

A pattern that is written again, perhaps with other blanks around it, changes nothing: not whether
the patterns compile, nor which fault is reported, nor what is denied. It is the first place of
each form that counts, and what a denylist tells of itself compiles to the same denylist again.
-/

namespace ParameterHints.Denylist

/-- The patterns of a denylist as they are written, without the blanks around them. -/
def forms (d : Denylist) : List (List Char) := d.patterns.map MethodPattern.pattern

variable {texts others : List String} {d d' : Denylist} {fault : PatternError}

/-- The first pattern that is wrong is reported, for leaving out repetitions passes over none that
    was not met before. -/
theorem ofPatterns_eq_error_iff : ofPatterns texts = .error fault ↔
    texts.findSome? (fun text => MethodPattern.fault? text.toList) = some fault := by
  have searched : (trimmed texts).eraseDups.findSome? MethodPattern.fault? =
      texts.findSome? fun text => MethodPattern.fault? text.toList := by
    rw [findSome?_eraseDups, trimmed, List.findSome?_map]
    exact congrArg (texts.findSome? ·) (funext fun text => by
      simp only [Function.comp, MethodPattern.fault?, MethodPattern.parse_trim])
  rw [ofPatterns_eq, ← searched, ← MethodPattern.mapM_parse_eq_error_iff]
  cases (trimmed texts).eraseDups.mapM MethodPattern.parse <;>
    simp [Bind.bind, Except.bind, pure, Except.pure]

/-- The pattern that is reported stands behind patterns that are right. -/
theorem ofPatterns_eq_error_iff_exists : ofPatterns texts = .error fault ↔
    ∃ before text after, texts = before ++ text :: after ∧
      MethodPattern.parse text.toList = .error fault ∧
      ∀ earlier ∈ before, ∃ q, MethodPattern.parse earlier.toList = .ok q := by
  rw [ofPatterns_eq_error_iff, List.findSome?_eq_some_iff]
  simp only [MethodPattern.fault?_eq_some_iff, MethodPattern.fault?_eq_none_iff]

theorem exists_ofPatterns_iff : (∃ d, ofPatterns texts = .ok d) ↔
    ∀ text ∈ texts, ∃ q, MethodPattern.parse text.toList = .ok q := by
  simp only [← MethodPattern.fault?_eq_none_iff]
  rw [← List.findSome?_eq_none_iff]
  cases result : ofPatterns texts with
  | error fault => simp [ofPatterns_eq_error_iff.mp result]
  | ok d =>
      cases found : texts.findSome? fun text => MethodPattern.fault? text.toList with
      | none => simp
      | some fault =>
          rw [ofPatterns_eq_error_iff.mpr found] at result
          cases result

/-- Whether patterns compile depends on their forms only. -/
theorem exists_ofPatterns_of_forms (built : ofPatterns texts = .ok d)
    (same : ∀ form, form ∈ trimmed others ↔ form ∈ trimmed texts) :
    ∃ d', ofPatterns others = .ok d' := by
  refine exists_ofPatterns_iff.mpr fun text among => ?_
  have listed : Text.trim text.toList ∈ trimmed texts :=
    (same _).mp (List.mem_map_of_mem among)
  obtain ⟨original, there, equal⟩ := List.mem_map.mp listed
  rw [← MethodPattern.parse_trim, ← equal, MethodPattern.parse_trim]
  exact exists_ofPatterns_iff.mp ⟨d, built⟩ original there

theorem map_trim_trimmed (texts : List String) :
    (trimmed texts).eraseDups.map Text.trim = (trimmed texts).eraseDups := by
  have kept : ∀ form ∈ (trimmed texts).eraseDups, Text.trim form = id form := fun form member => by
    obtain ⟨text, -, rfl⟩ := List.mem_map.mp (List.mem_eraseDups.mp member)
    exact Text.trim_trim _
  rw [List.map_congr_left kept, List.map_id]

theorem forms_of_ofPatterns (built : ofPatterns texts = .ok d) :
    d.forms = (trimmed texts).eraseDups := by
  rw [forms, MethodPattern.map_pattern_parsed (ofPatterns_eq_ok_iff.mp built), map_trim_trimmed]

theorem ofPatterns_forms (built : ofPatterns texts = .ok d) :
    ofPatterns (d.forms.map String.ofList) = .ok d := by
  have same : trimmed (d.forms.map String.ofList) = (trimmed texts).eraseDups :=
    calc trimmed (d.forms.map String.ofList)
      _ = d.forms.map Text.trim := by
        simp only [trimmed, List.map_map, Function.comp_def, String.toList_ofList]
      _ = (trimmed texts).eraseDups := by rw [forms_of_ofPatterns built, map_trim_trimmed]
  rw [ofPatterns_eq_ok_iff, same, eraseDups_of_nodup (nodup_eraseDups _), ← ofPatterns_eq_ok_iff]
  exact built

/-- What is denied depends on the forms only, not on their order or repetition. -/
theorem denies_congr (built : ofPatterns texts = .ok d) (rebuilt : ofPatterns others = .ok d')
    (same : ∀ form, form ∈ trimmed others ↔ form ∈ trimmed texts) (info : MethodInfo) :
    d'.denies info = d.denies info := by
  rw [Bool.eq_iff_iff, denies, denies, List.any_eq_true, List.any_eq_true]
  simp only [mem_patterns_iff built, mem_patterns_iff rebuilt, same]

/-- Compilation keeps what every pattern means on its own. It succeeds if each pattern parses, and
    otherwise reports the first one that does not. The denylist lists each form where it first
    occurs, denies what one of the patterns matches, and compiles to itself again. Patterns with the
    same forms in any other order, or repeated, compile as well and deny the same. -/
theorem compilation_keeps_meaning (texts : List String) :
    ((∃ d, ofPatterns texts = .ok d) ↔
      ∀ text ∈ texts, ∃ q, MethodPattern.parse text.toList = .ok q) ∧
    (∀ fault, ofPatterns texts = .error fault ↔ ∃ before text after,
      texts = before ++ text :: after ∧ MethodPattern.parse text.toList = .error fault ∧
        ∀ earlier ∈ before, ∃ q, MethodPattern.parse earlier.toList = .ok q) ∧
    ∀ d, ofPatterns texts = .ok d →
      d.forms = (trimmed texts).eraseDups ∧
      (∀ info, d.denies info ↔
        ∃ text ∈ texts, ∃ q, MethodPattern.parse text.toList = .ok q ∧ q.isMatch info) ∧
      ofPatterns (d.forms.map String.ofList) = .ok d ∧
      ∀ others, (∀ form, form ∈ trimmed others ↔ form ∈ trimmed texts) →
        ∃ d', ofPatterns others = .ok d' ∧ ∀ info, d'.denies info = d.denies info := by
  refine ⟨exists_ofPatterns_iff, fun fault => ofPatterns_eq_error_iff_exists, fun d built =>
    ⟨forms_of_ofPatterns built, fun info => ?_, ofPatterns_forms built, fun others same => ?_⟩⟩
  · simp only [denies_iff built, MethodPattern.parse_trim]
  · obtain ⟨d', rebuilt⟩ := exists_ofPatterns_of_forms built same
    exact ⟨d', rebuilt, denies_congr built rebuilt same⟩

/-- A pattern that is written again between blanks, an em space among them, is there once. -/
theorem repeated_keeps_meaning :
    let texts := ["a.B.*", "\u2003a.B.* ", "*.log(x)"]
    let others := ["*.log(x) ", "a.B.*"]
    (∀ form, form ∈ trimmed others ↔ form ∈ trimmed texts) ∧
      ∃ d, ofPatterns texts = .ok d ∧ d.forms = ["a.B.*".toList, "*.log(x)".toList] ∧
        (∀ info, d.denies info ↔
          ∃ text ∈ texts, ∃ q, MethodPattern.parse text.toList = .ok q ∧ q.isMatch info) ∧
        ofPatterns (d.forms.map String.ofList) = .ok d ∧
        ∃ d', ofPatterns others = .ok d' ∧ ∀ info, d'.denies info = d.denies info := by
  intro texts others
  have first : trimmed texts = ["a.B.*".toList, "a.B.*".toList, "*.log(x)".toList] := by
    decide +kernel
  have second : trimmed others = ["*.log(x)".toList, "a.B.*".toList] := by decide +kernel
  have same : ∀ form, form ∈ trimmed others ↔ form ∈ trimmed texts := fun form => by
    rw [first, second]
    grind
  have compiles : (ofPatterns texts).toOption.isSome := by decide +kernel
  cases built : ofPatterns texts with
  | error fault =>
      rw [built] at compiles
      cases compiles
  | ok d =>
      obtain ⟨forms, denied, again, reordered⟩ := (compilation_keeps_meaning texts).2.2 d built
      exact ⟨same, d, rfl, forms.trans (by decide +kernel), denied, again, reordered others same⟩

end ParameterHints.Denylist
