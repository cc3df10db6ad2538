import ParameterHints.Proofs.Denylist.Parentheses

/-! # Patterns with a parameter list

A name with a parameter list behind it means what it spells, however many blanks are written in it:
the name is that of the method, and each entry is the name of one parameter, or a star for any name.
-/

namespace ParameterHints.MethodPattern

/-- An entry of a parameter list: solid, and without a comma or a parenthesis. -/
structure IsEntry (entry : List Char) : Prop where
  solid : Text.Solid entry
  single : ',' ∉ entry
  unlisted : Unlisted entry

instance : DecidablePred IsEntry := fun entry =>
  decidable_of_iff (Text.Solid entry ∧ ',' ∉ entry ∧ Unlisted entry)
    ⟨fun ⟨solid, single, unlisted⟩ => ⟨solid, single, unlisted⟩,
      fun h => ⟨h.solid, h.single, h.unlisted⟩⟩

/-- The parts between the commas of a list that has some entries. Blanks may stand around each
    entry, and a part of nothing but blanks has no entry. -/
inductive Listed : List (List Char) → List (List Char) → Prop where
  | nil : Listed [] []
  | blank {part entries parts} : Text.Blank part → Listed entries parts →
      Listed entries (part :: parts)
  | entry {entry part entries parts} : Text.Pads entry part → Listed entries parts →
      Listed (entry :: entries) (part :: parts)

/-- The ways to write a pattern with a parameter list: blanks may stand around the whole, behind the
    name and around each entry. -/
def Spells (name : List Char) (entries : List (List Char)) (text : List Char) : Prop :=
  ∃ gap parts, Text.Blank gap ∧ Listed entries parts ∧
    Text.Pads (name ++ gap ++ '(' :: ([','].intercalate parts ++ [')'])) text

variable {name text part : List Char} {entries parts : List (List Char)} {names : List String}

/-! ## Reading a list -/

theorem not_isBlank_of_isParenthesis {c : Char} (parenthesis : isParenthesis c) :
    ¬ Text.isBlank c := by
  simp only [isParenthesis, Bool.or_eq_true, beq_iff_eq] at parenthesis
  rcases parenthesis with rfl | rfl <;> decide

theorem Listed.single (h : Listed entries parts) (each : ∀ entry ∈ entries, IsEntry entry) :
    ∀ part ∈ parts, ',' ∉ part := by
  have solid : ¬ Text.isBlank ',' := by decide
  induction h with
  | nil => exact nofun
  | blank blank _ ih => exact List.forall_mem_cons.mpr ⟨blank.not_mem solid, ih each⟩
  | entry padded _ ih =>
      obtain ⟨here, later⟩ := List.forall_mem_cons.mp each
      refine List.forall_mem_cons.mpr ⟨fun comma => ?_, ih later⟩
      exact (padded.mem comma).elim solid here.single

theorem Listed.unlisted (h : Listed entries parts) (each : ∀ entry ∈ entries, IsEntry entry) :
    ∀ part ∈ parts, Unlisted part := by
  induction h with
  | nil => exact nofun
  | blank blank _ ih =>
      refine List.forall_mem_cons.mpr ⟨fun c member parenthesis => ?_, ih each⟩
      exact not_isBlank_of_isParenthesis parenthesis (blank c member)
  | entry padded _ ih =>
      obtain ⟨here, later⟩ := List.forall_mem_cons.mp each
      refine List.forall_mem_cons.mpr ⟨fun c member parenthesis => ?_, ih later⟩
      exact (padded.mem member).elim (not_isBlank_of_isParenthesis parenthesis)
        fun inside => here.unlisted c inside parenthesis

/-- Trimming the parts and leaving out what is empty then gives the entries. -/
theorem Listed.trimmed (h : Listed entries parts) (each : ∀ entry ∈ entries, IsEntry entry) :
    (parts.map Text.trim).filter (!·.isEmpty) = entries := by
  induction h with
  | nil => rfl
  | blank blank _ ih =>
      rw [List.map_cons, Text.trim_blank blank, List.filter_cons_of_neg (by simp), ih each]
  | entry padded _ ih =>
      obtain ⟨here, later⟩ := List.forall_mem_cons.mp each
      have given := here.solid.given
      rw [List.map_cons, padded.trim_eq here.solid, List.filter_cons_of_pos (by simpa using given),
        ih later]

theorem entries_intercalate (h : Listed entries parts) (each : ∀ entry ∈ entries, IsEntry entry) :
    MethodPattern.entries ([','].intercalate parts) = entries := by
  rw [MethodPattern.entries, Text.segments_eq_splitOn]
  by_cases given : parts = []
  · subst given
    cases h
    rfl
  · rw [List.splitOn_intercalate ',' (h.single each) given, h.trimmed each]

theorem forall_mem_intercalate {p : Char → Prop} (separator : p ',')
    (inside : ∀ part ∈ parts, ∀ c ∈ part, p c) : ∀ c ∈ [','].intercalate parts, p c := by
  induction parts with
  | nil => exact nofun
  | cons part parts ih =>
      obtain ⟨here, later⟩ := List.forall_mem_cons.mp inside
      by_cases more : parts = []
      · subst more
        rwa [List.intercalate_singleton]
      · rw [List.intercalate_cons_of_ne_nil more, List.append_assoc]
        exact List.forall_mem_append.mpr ⟨here, List.forall_mem_cons.mpr ⟨separator, ih later⟩⟩

/-- However it is written, the pattern comes apart into the name and the entries. -/
theorem Spells.split_eq (written : Spells name entries text) (solid : Text.Solid name)
    (unlisted : Unlisted name) (each : ∀ entry ∈ entries, IsEntry entry) :
    split (Text.trim text) = .ok (name, some entries) := by
  obtain ⟨gap, parts, blank, listed, padded⟩ := written
  have whole : Text.Solid (name ++ gap ++ '(' :: ([','].intercalate parts ++ [')'])) := by
    refine ⟨by simp, fun c head => ?_, fun c last => ?_⟩
    · obtain ⟨first, rest, rfl⟩ := List.exists_cons_of_ne_nil solid.given
      exact solid.first c head
    · rw [← List.cons_append, ← List.append_assoc, List.getLast?_concat] at last
      cases last
      decide
  have unopened : '(' ∉ name ++ gap := by
    rw [List.mem_append, not_or]
    exact ⟨(unlisted_iff.mp unlisted).1, blank.not_mem (by decide)⟩
  have free : Unlisted ([','].intercalate parts) :=
    forall_mem_intercalate (by decide) (listed.unlisted each)
  have bare : Text.trim (name ++ gap) = name := Text.Pads.trim_eq ⟨[], gap, nofun, blank, rfl⟩ solid
  rw [padded.trim_eq whole, split_closed unopened free, bare, entries_intercalate listed each]

/-! ## Matching -/

theorem allowsAll_iff : allowsAll entries names ↔
    List.Forall₂ (fun entry name => entry = ['*'] ∨ entry = name.toList) entries names := by
  induction entries generalizing names with
  | nil => cases names <;> simp [allowsAll]
  | cons entry entries ih =>
      cases names with
      | nil => simp [allowsAll]
      | cons name names => simp [allowsAll, allows, ih]

/-- Entries other than stars are the names themselves. -/
theorem forall₂_named_iff {entries : List String} (named : "*" ∉ entries) :
    List.Forall₂ (fun entry given => entry = "*" ∨ entry = given) entries names ↔
      names = entries := by
  induction entries generalizing names with
  | nil => exact List.forall₂_nil_left_iff
  | cons entry entries ih =>
      obtain ⟨here, later⟩ := not_or.mp (List.mem_cons.not.mp named)
      cases names with
      | nil => simp
      | cons given names =>
          rw [List.forall₂_cons, ih later, or_iff_right (Ne.symm here), List.cons.injEq,
            eq_comm (a := given)]

/-- A pattern with a parameter list, however many blanks are written in it, matches the methods of
    that full name with as many parameters as there are entries, each with the name that its entry
    gives unless the entry is a star. Without such entries there is only one such method. -/
theorem lists_mean_their_entries (name : String) (entries : List String) (text : String)
    (solid : Text.Solid name.toList) (unlisted : Unlisted name.toList)
    (literal : Glob.Literal name.toList) (each : ∀ entry ∈ entries, IsEntry entry.toList)
    (written : Spells name.toList (entries.map String.toList) text.toList) :
    ∃ q, parse text.toList = .ok q ∧
      (∀ info, q.isMatch info ↔ info.fullName = name ∧
        List.Forall₂ (fun entry given => entry = "*" ∨ entry = given) entries info.parameterNames) ∧
      ("*" ∉ entries → ∀ info, q.isMatch info ↔ info = ⟨name, entries⟩) := by
  obtain ⟨g, parsed, matching⟩ := Glob.isMatch_literal literal
  have parts := written.split_eq solid unlisted (List.forall_mem_map.mpr each)
  have means (info : MethodInfo) :
      (MethodPattern.mk (Text.trim text.toList) g (some (entries.map String.toList))).isMatch info ↔
        info.fullName = name ∧ List.Forall₂ (fun entry given => entry = "*" ∨ entry = given)
          entries info.parameterNames := by
    have star : "*".toList = ['*'] := rfl
    simp only [isMatch, Bool.and_eq_true, matching, String.toList_inj, allowsAll_iff,
      List.forall₂_map_left_iff, ← star]
  refine ⟨_, parse_of_split parts solid.given parsed, means, fun named info => ?_⟩
  rw [means, forall₂_named_iff named]
  cases info
  rw [MethodInfo.mk.injEq]

/-- Blanks of several kinds around the name and the entries, and a comma too many. -/
theorem spread_list_means_entries :
    let name := "a.é.run"
    let entries := ["x", "ü"]
    let text := "\u2003a.é.run\t( x, ,\u00a0ü\n)  "
    (∀ entry ∈ entries, IsEntry entry.toList) ∧
      Spells name.toList (entries.map String.toList) text.toList ∧
      ∃ q, parse text.toList = .ok q ∧ ∀ info, q.isMatch info ↔ info = ⟨name, entries⟩ := by
  intro name entries text
  have each : ∀ entry ∈ entries, IsEntry entry.toList :=
    List.forall_mem_cons.mpr ⟨by decide +kernel, List.forall_mem_singleton.mpr (by decide +kernel)⟩
  have listed : Listed (entries.map String.toList) [" x".toList, " ".toList, "\u00a0ü\n".toList] :=
    .entry ⟨" ".toList, [], by decide, nofun, rfl⟩ <| .blank (by decide) <|
      .entry ⟨"\u00a0".toList, "\n".toList, by decide, by decide, rfl⟩ .nil
  have written : Spells name.toList (entries.map String.toList) text.toList :=
    ⟨"\t".toList, _, by decide, listed, "\u2003".toList, "  ".toList, by decide, by decide,
      by decide +kernel⟩
  obtain ⟨q, parsed, -, only⟩ := lists_mean_their_entries name entries text (by decide +kernel)
    (by decide +kernel) (by decide +kernel) each written
  exact ⟨each, written, q, parsed, only (by decide)⟩

end ParameterHints.MethodPattern
