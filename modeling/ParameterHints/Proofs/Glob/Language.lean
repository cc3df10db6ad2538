import ParameterHints.Glob.ByteRegex

/-! # The language of an expression

An expression over bytes stands for a set of texts. The match by partial derivatives decides it:
the expressions that are left after a byte stand together for what may follow that byte.
-/

namespace ParameterHints

namespace ByteSet

@[simp] theorem contains_all (b : UInt8) : all.contains b = true := rfl

@[simp] theorem contains_single {b c : UInt8} : (single b).contains c ↔ c = b := by
  simp only [single, contains, List.any_cons, List.any_nil, Bool.or_false, Bool.bne_false,
    Bool.and_eq_true, decide_eq_true_eq]
  constructor
  · rintro ⟨low, high⟩
    exact UInt8.le_antisymm high low
  · rintro rfl
    exact ⟨UInt8.le_refl _, UInt8.le_refl _⟩

end ByteSet

namespace ByteRegex

/-- The texts that an expression stands for. -/
inductive Matches : ByteRegex → List UInt8 → Prop where
  | empty : Matches empty []
  | byte {set b} : set.contains b → Matches (byte set) [b]
  | seq {first second x y} : Matches first x → Matches second y →
      Matches (seq first second) (x ++ y)
  | left {first second x} : Matches first x → Matches (alt first second) x
  | right {first second x} : Matches second x → Matches (alt first second) x
  | done {body} : Matches (star body) []
  | more {body x y} : Matches body x → Matches (star body) y → Matches (star body) (x ++ y)

variable {r first second body : ByteRegex} {b : UInt8} {text : List UInt8}

theorem matches_seq_iff :
    (seq first second).Matches text ↔
      ∃ x y, first.Matches x ∧ second.Matches y ∧ x ++ y = text := by
  constructor
  · intro h
    cases h with
    | seq hx hy => exact ⟨_, _, hx, hy, rfl⟩
  · rintro ⟨x, y, hx, hy, rfl⟩
    exact .seq hx hy

theorem matches_alt_iff :
    (alt first second).Matches text ↔ first.Matches text ∨ second.Matches text := by
  constructor
  · intro h
    cases h with
    | left h => exact .inl h
    | right h => exact .inr h
  · rintro (h | h)
    · exact .left h
    · exact .right h

/-- The blank expressions are those that stand for the empty text. -/
theorem nullable_iff : r.nullable ↔ r.Matches [] := by
  induction r with
  | empty => exact ⟨fun _ => .empty, fun _ => rfl⟩
  | byte set => exact ⟨nofun, nofun⟩
  | seq first second ihf ihs =>
      rw [nullable, Bool.and_eq_true, ihf, ihs, matches_seq_iff]
      constructor
      · rintro ⟨hx, hy⟩
        exact ⟨[], [], hx, hy, rfl⟩
      · rintro ⟨x, y, hx, hy, whole⟩
        obtain ⟨rfl, rfl⟩ := List.append_eq_nil_iff.mp whole
        exact ⟨hx, hy⟩
  | alt first second ihf ihs => rw [nullable, Bool.or_eq_true, ihf, ihs, matches_alt_iff]
  | star body => exact ⟨fun _ => .done, fun _ => rfl⟩

/-- Leaving out a leading empty expression changes nothing. -/
theorem matches_andThen :
    (first.andThen second).Matches text ↔ (seq first second).Matches text := by
  unfold andThen
  split
  · constructor
    · exact fun h => Matches.seq .empty h
    · intro h
      cases h with
      | seq hx hy =>
          cases hx
          exact hy
  · rfl

/-- A first byte of one text after another is that of the first of them, unless that is empty. -/
theorem cons_seq_iff : (seq first second).Matches (b :: text) ↔
    (∃ x y, first.Matches (b :: x) ∧ second.Matches y ∧ x ++ y = text) ∨
      first.Matches [] ∧ second.Matches (b :: text) := by
  rw [matches_seq_iff]
  constructor
  · rintro ⟨x, y, hx, hy, whole⟩
    cases x with
    | nil =>
        obtain rfl : y = b :: text := whole
        exact .inr ⟨hx, hy⟩
    | cons c x =>
        obtain ⟨rfl, rfl⟩ := List.cons_eq_cons.mp whole
        exact .inl ⟨x, y, hx, hy, rfl⟩
  · rintro (⟨x, y, hx, hy, rfl⟩ | ⟨hx, hy⟩)
    · exact ⟨b :: x, y, hx, hy, rfl⟩
    · exact ⟨[], b :: text, hx, hy, rfl⟩

/-- A first byte of any number of texts is that of the first one that is not empty. -/
theorem cons_star_iff : (star body).Matches (b :: text) ↔
    ∃ x y, body.Matches (b :: x) ∧ (star body).Matches y ∧ x ++ y = text := by
  constructor
  · intro h
    generalize repeated : star body = r at h
    generalize whole : b :: text = entire at h
    induction h generalizing text with
    | empty | byte | seq | left | right => cases repeated
    | done => cases whole
    | @more _ x y hx hy _ ih =>
        cases repeated
        cases x with
        | nil => exact ih rfl whole
        | cons c x =>
            obtain ⟨rfl, rfl⟩ := List.cons_eq_cons.mp whole
            exact ⟨x, y, hx, hy, rfl⟩
  · rintro ⟨x, y, hx, hy, rfl⟩
    exact Matches.more hx hy

/-- Expressions continued by another one match what they match, continued. -/
theorem exists_andThen_iff {states : List ByteRegex} :
    (∃ s ∈ states.map (·.andThen second), s.Matches text) ↔
      ∃ x y, (∃ s ∈ states, s.Matches x) ∧ second.Matches y ∧ x ++ y = text := by
  constructor
  · rintro ⟨_, listed, h⟩
    obtain ⟨s, left, rfl⟩ := List.mem_map.mp listed
    obtain ⟨x, y, hx, hy, whole⟩ := matches_seq_iff.mp (matches_andThen.mp h)
    exact ⟨x, y, ⟨s, left, hx⟩, hy, whole⟩
  · rintro ⟨x, y, ⟨s, left, hx⟩, hy, rfl⟩
    exact ⟨_, List.mem_map_of_mem left, matches_andThen.mpr (.seq hx hy)⟩

/-- The expressions that are left after a byte match what may follow it. -/
theorem matches_cons_iff : r.Matches (b :: text) ↔ ∃ s ∈ r.partials b, s.Matches text := by
  induction r generalizing text with
  | empty => exact ⟨nofun, fun ⟨_, listed, _⟩ => nomatch listed⟩
  | byte set =>
      unfold partials
      split
      · next inside =>
          simp only [List.mem_singleton, exists_eq_left]
          exact ⟨fun | .byte _ => .empty, fun | .empty => .byte inside⟩
      · next outside => exact ⟨fun | .byte inside => absurd inside outside, nofun⟩
  | seq first second ihf ihs =>
      rw [cons_seq_iff, partials]
      simp only [List.mem_append, or_and_right, exists_or, exists_andThen_iff]
      refine or_congr (exists_congr fun x => exists_congr fun y => and_congr_left' ihf) ?_
      rw [← nullable_iff]
      split
      · next blank => exact (and_iff_right blank).trans ihs
      · next solid => exact ⟨fun h => absurd h.1 solid, nofun⟩
  | alt first second ihf ihs =>
      simp only [matches_alt_iff, partials, List.mem_append, or_and_right, exists_or]
      exact or_congr ihf ihs
  | star body ih =>
      rw [cons_star_iff, partials, exists_andThen_iff]
      exact exists_congr fun x => exists_congr fun y => and_congr_left' ih

/-- Several expressions match together what any one of them stands for. -/
theorem anyMatch_iff {states : List ByteRegex} :
    anyMatch states text ↔ ∃ r ∈ states, r.Matches text := by
  induction text generalizing states with
  | nil =>
      rw [anyMatch, List.any_eq_true]
      exact exists_congr fun r => and_congr_right' nullable_iff
  | cons b rest ih =>
      rw [anyMatch, ih]
      simp only [List.mem_eraseDups, List.mem_flatMap, matches_cons_iff]
      constructor
      · rintro ⟨s, ⟨r, listed, left⟩, h⟩
        exact ⟨r, listed, s, left, h⟩
      · rintro ⟨r, listed, s, left, h⟩
        exact ⟨s, ⟨r, listed, left⟩, h⟩

/-- A text is matched exactly if the expression stands for it. -/
theorem isMatch_iff : r.isMatch text ↔ r.Matches text := by
  simp [isMatch, anyMatch_iff]

theorem matches_anything (text : List UInt8) : anything.Matches text := by
  induction text with
  | nil => exact .done
  | cons b rest ih => exact .more (.byte (ByteSet.contains_all b)) ih

theorem matches_single : (byte (.single b)).Matches text ↔ text = [b] := by
  constructor
  · intro h
    cases h with
    | byte inside => rw [ByteSet.contains_single.mp inside]
  · rintro rfl
    exact .byte (ByteSet.contains_single.mpr rfl)

theorem matches_ofBytes {bytes : List UInt8} : (ofBytes bytes).Matches text ↔ text = bytes := by
  induction bytes generalizing text with
  | nil =>
      constructor
      · rintro ⟨⟩
        rfl
      · rintro rfl
        exact .empty
  | cons b rest ih =>
      cases rest with
      | nil => exact matches_single
      | cons c rest =>
          change (seq (byte (.single b)) (ofBytes (c :: rest))).Matches text ↔ _
          simp only [matches_seq_iff, matches_single, ih]
          constructor
          · rintro ⟨_, _, rfl, rfl, rfl⟩
            rfl
          · rintro rfl
            exact ⟨_, _, rfl, rfl, rfl⟩

end ByteRegex

end ParameterHints
