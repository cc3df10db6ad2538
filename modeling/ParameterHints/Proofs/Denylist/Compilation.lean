import Mathlib.Data.List.Forall2
import ParameterHints.Denylist.Merged
import ParameterHints.Proofs.FirstOccurrence
import ParameterHints.Proofs.Glob.Pieces
import ParameterHints.Proofs.Text.Trimming

/-! # Compilation of denylists

Compilation parses the patterns one by one, leaving out those whose form it has seen already. So
every pattern that went into a denylist is denied by it, whatever other patterns stand around.
-/

namespace ParameterHints

namespace MethodPattern

theorem not_opening_of_mem {text : List Char} (unopened : '(' ∉ text) :
    ∀ c ∈ text, (c != '(') = true :=
  fun c member => by simpa using fun same : c = '(' => unopened (same ▸ member)

theorem split_unlisted {pattern : List Char} (unlisted : '(' ∉ pattern) :
    split pattern = .ok (pattern, none) := by
  rw [split, List.dropWhile_eq_nil_iff.mpr (not_opening_of_mem unlisted)]

/-- A pattern is right if its parts are. -/
theorem parse_of_split {text name : List Char} {list? : Option (List (List Char))} {g : Glob}
    (parts : split (Text.trim text) = .ok (name, list?)) (solid : name ≠ [])
    (glob : Glob.parse name = .ok g) : parse text = .ok ⟨Text.trim text, g, list?⟩ := by
  have given : name.isEmpty = false := by simpa using solid
  simp [parse, parts, given, glob, Bind.bind, Except.bind, pure, Except.pure]

/-- A pattern without a parameter list is a glob for the full name. -/
theorem parse_name {name : List Char} {g : Glob} (trimmed : Text.trim name = name)
    (solid : name ≠ []) (unlisted : '(' ∉ name) (glob : Glob.parse name = .ok g) :
    parse name = .ok ⟨name, g, none⟩ := by
  have parts : split (Text.trim name) = .ok (name, none) := by
    rw [trimmed, split_unlisted unlisted]
  rw [parse_of_split parts solid glob, trimmed]

/-- A glob of plain characters and single stars is a pattern for the names that its pieces make. -/
theorem parse_wildcarded {name : List Char} (solid : Text.Solid name) (unlisted : '(' ∉ name)
    (h : Glob.Wildcarded name) : ∃ q, parse name = .ok q ∧ ∀ info : MethodInfo,
      q.isMatch info ↔ Glob.Strung (name.splitOn '*') info.fullName.toList := by
  obtain ⟨g, parsed, matching⟩ := Glob.isMatch_strung h
  have trimmed : Text.trim name = name := Text.trim_of_edges solid.first solid.last
  refine ⟨_, parse_name trimmed solid.given unlisted parsed, fun info => ?_⟩
  rw [isMatch, Bool.and_true, matching]

/-- A plain text with a star behind it is a pattern for all names that begin with the text. -/
theorem parse_leading {text : List Char} (plain : ∀ c ∈ text, Glob.IsPlain c)
    (unstarred : '*' ∉ text) (unlisted : '(' ∉ text) (first : ∀ c ∈ text.head?, ¬ Text.isBlank c) :
    ∃ q, parse (text ++ ['*']) = .ok q ∧
      ∀ info : MethodInfo, text <+: info.fullName.toList → q.isMatch info := by
  have solid : Text.Solid (text ++ ['*']) := by
    refine ⟨by simp, fun c head => ?_, fun c last => ?_⟩
    · cases text with
      | nil =>
          cases head
          decide
      | cons d rest => exact first c head
    · obtain rfl : '*' = c := by simpa using last
      decide
  obtain ⟨q, parsed, matching⟩ := parse_wildcarded solid (by simpa using unlisted)
    (Glob.wildcarded_leading plain unstarred)
  refine ⟨q, parsed, fun info leads => ?_⟩
  rw [matching, Glob.strung_leading_iff unstarred]
  exact leads

theorem parse_trim (text : List Char) : parse (Text.trim text) = parse text := by
  rw [parse, parse, Text.trim_trim]

/-- The pattern is kept as it is written, without the blanks around it. -/
theorem pattern_of_parse {text : List Char} {q : MethodPattern} (h : parse text = .ok q) :
    q.pattern = Text.trim text := by
  rw [parse] at h
  cases parts : split (Text.trim text) with
  | error fault =>
      rw [parts] at h
      cases h
  | ok both =>
      rw [parts] at h
      dsimp only [Bind.bind, Except.bind] at h
      split at h
      · cases h
      · split at h
        · cases h
          rfl
        · cases h

/-- What is wrong with a pattern, if anything is. -/
def fault? (text : List Char) : Option PatternError :=
  match parse text with
  | .ok _ => none
  | .error fault => some fault

variable {text : List Char} {fault : PatternError} {forms : List (List Char)}
  {patterns : List MethodPattern}

theorem fault?_eq_none_iff : fault? text = none ↔ ∃ q, parse text = .ok q := by
  rw [fault?]
  cases parse text <;> simp

theorem fault?_eq_some_iff : fault? text = some fault ↔ parse text = .error fault := by
  rw [fault?]
  cases parse text <;> simp

/-- Patterns are parsed one by one. -/
theorem mapM_parse_eq_ok_iff : forms.mapM parse = .ok patterns ↔
    List.Forall₂ (fun form q => parse form = .ok q) forms patterns := by
  induction forms generalizing patterns with
  | nil => simp [pure, Except.pure, eq_comm]
  | cons form rest ih =>
      rw [List.mapM_cons, List.forall₂_cons_left_iff]
      cases parse form with
      | error wrong => simp [Bind.bind, Except.bind]
      | ok q =>
          simp only [← ih]
          cases rest.mapM parse <;> simp [Bind.bind, Except.bind, pure, Except.pure, eq_comm]

/-- Each parsed pattern comes from a form, and each form gives a parsed pattern. -/
theorem mem_parsed (h : List.Forall₂ (fun form q => parse form = .ok q) forms patterns)
    {q : MethodPattern} : q ∈ patterns ↔ ∃ form ∈ forms, parse form = .ok q := by
  induction h with
  | nil => simp
  | cons parsed _ ih => simp [ih, parsed, eq_comm]

theorem map_pattern_parsed (h : List.Forall₂ (fun form q => parse form = .ok q) forms patterns) :
    patterns.map pattern = forms.map Text.trim := by
  induction h with
  | nil => rfl
  | cons parsed _ ih => rw [List.map_cons, List.map_cons, pattern_of_parse parsed, ih]

/-- The first pattern that is wrong is the one that counts. -/
theorem mapM_parse_eq_error_iff :
    forms.mapM parse = .error fault ↔ forms.findSome? fault? = some fault := by
  induction forms with
  | nil => simp [pure, Except.pure]
  | cons form rest ih =>
      rw [List.mapM_cons, List.findSome?_cons, fault?]
      cases parse form with
      | error wrong => simp [Bind.bind, Except.bind]
      | ok q =>
          rw [← ih]
          cases rest.mapM parse <;> simp [Bind.bind, Except.bind, pure, Except.pure]

end MethodPattern

namespace Denylist

/-- Compilation parses the forms that were not seen before, each once and in their order. -/
theorem compile_eq_mapM (seen texts : List (List Char)) :
    compile seen texts =
      ((texts.map Text.trim).filter (· ∉ seen)).eraseDups.mapM MethodPattern.parse := by
  induction texts generalizing seen with
  | nil => rfl
  | cons text rest ih =>
      rw [compile, List.map_cons]
      split
      · next old => rw [List.filter_cons_of_neg (by simpa using old), ih]
      · next new =>
          have others : ((rest.map Text.trim).filter (· ∉ seen)).filter (! · == Text.trim text) =
              (rest.map Text.trim).filter (· ∉ Text.trim text :: seen) := by
            rw [List.filter_filter]
            exact List.filter_congr fun form _ => by simp [beq_eq_decide]
          rw [List.filter_cons_of_pos (by simpa using new), List.eraseDups_cons, List.mapM_cons,
            others, ih]

/-- Patterns without the blanks around them. -/
def trimmed (texts : List String) : List (List Char) :=
  texts.map fun text => Text.trim text.toList

variable {texts : List String} {d : Denylist}

theorem ofPatterns_eq (texts : List String) :
    ofPatterns texts =
      (return ⟨← (trimmed texts).eraseDups.mapM MethodPattern.parse⟩) := by
  have unseen : ((texts.map String.toList).map Text.trim).filter (· ∉ ([] : List (List Char))) =
      trimmed texts := by
    simp [trimmed, Function.comp_def]
  rw [ofPatterns, compile_eq_mapM, unseen]

/-- The patterns of a denylist are those that were written, each parsed where it first occurs. -/
theorem ofPatterns_eq_ok_iff : ofPatterns texts = .ok d ↔
    List.Forall₂ (fun form q => MethodPattern.parse form = .ok q) (trimmed texts).eraseDups
      d.patterns := by
  rw [ofPatterns_eq, ← MethodPattern.mapM_parse_eq_ok_iff]
  cases (trimmed texts).eraseDups.mapM MethodPattern.parse with
  | error fault => simp [Bind.bind, Except.bind]
  | ok patterns =>
      constructor
      · rintro ⟨⟩
        rfl
      · rintro ⟨⟩
        rfl

theorem mem_patterns_iff (built : ofPatterns texts = .ok d) {q : MethodPattern} :
    q ∈ d.patterns ↔ ∃ form ∈ trimmed texts, MethodPattern.parse form = .ok q := by
  rw [MethodPattern.mem_parsed (ofPatterns_eq_ok_iff.mp built)]
  simp only [List.mem_eraseDups]

/-- A method is denied when one of the patterns that went in matches it on its own. -/
theorem denies_iff (built : ofPatterns texts = .ok d) {info : MethodInfo} :
    d.denies info ↔ ∃ text ∈ texts, ∃ q,
      MethodPattern.parse (Text.trim text.toList) = .ok q ∧ q.isMatch info := by
  simp only [denies, List.any_eq_true, mem_patterns_iff built, trimmed, List.mem_map]
  constructor
  · rintro ⟨q, ⟨-, ⟨text, among, rfl⟩, parsed⟩, matching⟩
    exact ⟨text, among, q, parsed, matching⟩
  · rintro ⟨text, among, q, parsed, matching⟩
    exact ⟨q, ⟨_, ⟨text, among, rfl⟩, parsed⟩, matching⟩

theorem mem_ownPatterns {p : HintProvider} {text : String} :
    text ∈ p.ownPatterns ↔ text ∈ p.denylist := by
  rw [HintProvider.ownPatterns, List.mem_eraseDups]
  exact (List.mergeSort_perm _ _).mem_iff

/-- What a pattern of the provider matches is denied, whatever the configuration adds. -/
theorem denies_of_own {p : HintProvider} {c : Config} {d : Denylist}
    (built : ofProvider p c = .ok d) {text : String} (own : text ∈ p.denylist) {q : MethodPattern}
    (parsed : MethodPattern.parse (Text.trim text.toList) = .ok q) {info : MethodInfo}
    (matching : q.isMatch info) : d.denies info := by
  have among : text ∈ p.ownPatterns ++ c.dependencyPatterns (p.dependency.map Language.id) ++
      c.extraDenylist :=
    List.mem_append_left _ (List.mem_append_left _ (mem_ownPatterns.mpr own))
  exact (denies_iff built).mpr ⟨text, among, q, parsed, matching⟩

end Denylist

end ParameterHints
