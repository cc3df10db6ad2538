import ParameterHints.Proofs.Glob.Wildcards
import ParameterHints.Proofs.Text.ByteCut

/-! # Globs as pieces between stars

The stars of a glob cut it into pieces, and it covers a name that consists of these pieces in their
order, with any characters between one and the next. A star covers bytes, but the piece behind it
begins with the first byte of a character, so what the star covers is whole characters.
-/

namespace ParameterHints.Glob

/-- A name that consists of pieces in order, with any characters between one and the next. -/
inductive Strung : List (List Char) → List Char → Prop where
  | last (piece : List Char) : Strung [piece] piece
  | next {pieces name} (piece between : List Char) : Strung pieces name →
      Strung (piece :: pieces) (piece ++ (between ++ name))

variable {c : Char} {glob name stem piece : List Char} {pieces : List (List Char)}
  {bytes : List UInt8}

theorem strung_last_iff : Strung [piece] name ↔ name = piece := by
  constructor
  · intro h
    cases h with
    | last => rfl
    | next _ _ rest => cases rest
  · rintro rfl
    exact .last name

theorem strung_next_iff (more : pieces ≠ []) : Strung (piece :: pieces) name ↔
    ∃ between rest, name = piece ++ (between ++ rest) ∧ Strung pieces rest := by
  constructor
  · intro h
    cases h with
    | last => exact absurd rfl more
    | next _ between rest => exact ⟨between, _, rfl, rest⟩
  · rintro ⟨between, rest, rfl, h⟩
    exact .next piece between h

/-- A character in front of the first piece stands in front of the name. -/
theorem strung_modifyHead_iff (given : pieces ≠ []) :
    Strung (pieces.modifyHead (c :: ·)) name ↔ ∃ rest, name = c :: rest ∧ Strung pieces rest := by
  obtain ⟨piece, others, rfl⟩ := List.exists_cons_of_ne_nil given
  rw [List.modifyHead_cons]
  by_cases more : others = []
  · subst more
    simp only [strung_last_iff, exists_eq_right]
  · simp only [strung_next_iff more]
    constructor
    · rintro ⟨between, rest, rfl, h⟩
      exact ⟨_, rfl, between, rest, rfl, h⟩
    · rintro ⟨_, rfl, between, rest, rfl, h⟩
      exact ⟨between, rest, rfl, h⟩

/-- The bytes that a glob covers begin a character, unless a star comes first. -/
theorem Covers.first (h : Covers glob bytes) (unstarred : '*' ∉ glob.head?) :
    ∀ b ∈ bytes.head?, ¬ Text.Continues b := by
  cases h with
  | done => exact nofun
  | star => exact absurd rfl unstarred
  | char => exact Text.head_bytesOf_append _ _

/-- Without two stars in a row, a glob covers the bytes of the names that its pieces make. -/
theorem covers_bytes_iff (lone : glob.IsChain fun c d => ¬ (c = '*' ∧ d = '*')) :
    Covers glob (name.flatMap bytesOf) ↔ Strung (glob.splitOn '*') name := by
  induction glob generalizing name with
  | nil =>
      rw [List.splitOn_nil, strung_last_iff]
      constructor
      · intro h
        cases name with
        | nil => rfl
        | cons c rest =>
            rw [List.flatMap_cons, Text.bytesOf_eq] at h
            cases h
      · rintro rfl
        exact .done
  | cons c glob ih =>
      obtain ⟨apart, later⟩ := List.isChain_cons.mp lone
      simp only [covers_cons_iff, List.splitOn_cons_eq_if_modifyHead, beq_iff_eq]
      split
      · next star =>
          rw [strung_next_iff (List.splitOn_ne_nil _ glob)]
          constructor
          · rintro ⟨any, y, -, rest, whole⟩
            have unstarred : '*' ∉ glob.head? := fun second => apart '*' second ⟨star, rfl⟩
            obtain ⟨between, back, rfl, rfl, rfl⟩ :=
              Text.cut_before_first whole.symm (rest.first unstarred)
            exact ⟨between, back, rfl, (ih later).mp rest⟩
          · rintro ⟨between, rest, rfl, h⟩
            exact ⟨_, _, .inl star, (ih later).mpr h, (List.flatMap_append ..).symm⟩
      · next other =>
          rw [strung_modifyHead_iff (List.splitOn_ne_nil _ glob)]
          constructor
          · rintro ⟨x, y, own, rest, whole⟩
            obtain rfl := own.resolve_left other
            obtain ⟨back, rfl, rfl⟩ := Text.cons_of_bytes whole.symm
            exact ⟨back, rfl, (ih later).mp rest⟩
          · rintro ⟨rest, rfl, h⟩
            exact ⟨_, _, .inr rfl, (ih later).mpr h, rfl⟩

/-- Such a glob matches the names that its pieces make. -/
theorem isMatch_strung (h : Wildcarded glob) :
    ∃ g, parse glob = .ok g ∧ ∀ name, g.isMatch name ↔ Strung (glob.splitOn '*') name := by
  obtain ⟨g, parsed, matching⟩ := isMatch_wildcarded h
  exact ⟨g, parsed, fun name => (matching name).trans (covers_bytes_iff h.lone)⟩

/-! ## One star or none -/

/-- A text of plain characters, none of which is a star. -/
def Literal (text : List Char) : Prop := ∀ c ∈ text, IsPlain c ∧ c ≠ '*'

instance : DecidablePred Literal := fun text =>
  decidable_of_iff (text.all fun c => decide (IsPlain c ∧ c ≠ '*')) (by simp [Literal])

theorem Literal.unstarred (h : Literal stem) : '*' ∉ stem := fun member => (h _ member).2 rfl

theorem Literal.wildcarded (h : Literal stem) : Wildcarded stem where
  plain c member := (h c member).1
  lone := by
    refine (List.pairwise_of_forall_mem_list fun c member d _ both => ?_).isChain
    exact (h c member).2 both.1

/-- A glob without stars is its only piece. -/
theorem strung_unstarred_iff (unstarred : '*' ∉ stem) :
    Strung (stem.splitOn '*') name ↔ name = stem := by
  rw [List.splitOn_eq_singleton unstarred, strung_last_iff]

/-- A literal text matches itself and nothing else. -/
theorem isMatch_literal (h : Literal stem) :
    ∃ g, parse stem = .ok g ∧ ∀ name, g.isMatch name ↔ name = stem := by
  obtain ⟨g, parsed, matching⟩ := isMatch_strung h.wildcarded
  exact ⟨g, parsed, fun name => by rw [matching, strung_unstarred_iff h.unstarred]⟩

theorem strung_leading_iff (unstarred : '*' ∉ stem) :
    Strung ((stem ++ ['*']).splitOn '*') name ↔ stem <+: name := by
  rw [List.splitOn_append_cons_self_of_not_mem unstarred, List.splitOn_nil,
    strung_next_iff (List.cons_ne_nil _ _)]
  simp only [strung_last_iff, exists_eq_right, List.append_nil]
  exact exists_congr fun rest => eq_comm

theorem strung_trailing_iff (unstarred : '*' ∉ stem) :
    Strung (('*' :: stem).splitOn '*') name ↔ stem <:+ name := by
  rw [List.splitOn_cons_eq_if_modifyHead, if_pos (beq_self_eq_true _),
    List.splitOn_eq_singleton unstarred, strung_next_iff (List.cons_ne_nil _ _)]
  simp only [strung_last_iff, exists_eq_right, List.nil_append]
  exact exists_congr fun front => eq_comm

end ParameterHints.Glob
