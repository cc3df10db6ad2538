import ParameterHints.Proofs.Text.ByteOrder

/-! # Cutting the bytes of a text

The first byte of a character is never one of those that stand behind a first byte. So a cut in
front of a first byte goes between two characters, and each side is the bytes of a part of the text.
-/

namespace ParameterHints.Text

open Glob (bytesOf)

/-- A byte that stands in a character behind its first one. -/
def Continues (b : UInt8) : Prop := 128 ≤ b.toNat ∧ b.toNat < 192

variable {c : Char} {text : List Char} {x y : List UInt8}

theorem continues_of_mem_continuation {point count : Nat} {b : UInt8}
    (member : b ∈ continuation point count) : Continues b := by
  induction count with
  | zero => cases member
  | succ count ih =>
      rcases List.mem_cons.mp member with rfl | later
      · have digit : point / 64 ^ count % 64 < 64 := Nat.mod_lt _ (by decide)
        rw [Continues, UInt8.toNat_ofNat']
        omega
      · exact ih later

theorem not_continues_lead (c : Char) : ¬ Continues (UInt8.ofNat (lead c.toNat)) := by
  have small := lead_lt (toNat_lt c)
  rw [Continues, UInt8.toNat_ofNat', Nat.mod_eq_of_lt small]
  simp only [lead, following]
  split_ifs <;> simp only [mark, Nat.reducePow, Nat.div_one] <;> omega

theorem head_bytesOf_append (c : Char) (rest : List UInt8) :
    ∀ b ∈ (bytesOf c ++ rest).head?, ¬ Continues b := by
  rw [bytesOf_eq]
  rintro b ⟨⟩
  exact not_continues_lead c

/-- Whatever is left of a character after a part of it begins with a byte that continues it. -/
theorem continues_of_bytesOf_eq {b d : UInt8} (split : bytesOf c = b :: x ++ d :: y) :
    Continues d := by
  rw [bytesOf_eq] at split
  obtain ⟨-, rest⟩ := List.cons_eq_cons.mp split
  have member : d ∈ continuation c.toNat (following c.toNat) := by
    rw [rest]
    exact List.mem_append_right x List.mem_cons_self
  exact continues_of_mem_continuation member

theorem cut_before_first (whole : text.flatMap bytesOf = x ++ y)
    (first : ∀ b ∈ y.head?, ¬ Continues b) :
    ∃ front back, text = front ++ back ∧ front.flatMap bytesOf = x ∧ back.flatMap bytesOf = y := by
  induction text generalizing x with
  | nil =>
      obtain ⟨rfl, rfl⟩ := List.append_eq_nil_iff.mp whole.symm
      exact ⟨[], [], rfl, rfl, rfl⟩
  | cons c rest ih =>
      rw [List.flatMap_cons] at whole
      cases x with
      | nil => exact ⟨[], c :: rest, rfl, rfl, whole⟩
      | cons b x =>
          rcases List.append_eq_append_iff.mp whole with ⟨more, split, later⟩ | ⟨more, split, later⟩
          · obtain ⟨front, back, rfl, same, behind⟩ := ih later
            exact ⟨c :: front, back, rfl, by rw [List.flatMap_cons, same, split], behind⟩
          · -- The cut is not behind the character, so it is right at its end.
            cases more with
            | nil =>
                rw [List.append_nil] at split
                exact ⟨[c], rest, rfl, by simp [split], later.symm⟩
            | cons d more =>
                subst later
                exact absurd (continues_of_bytesOf_eq split) (first d rfl)

/-- A character is known by the bytes at the start of a text. -/
theorem cons_of_bytes (whole : text.flatMap bytesOf = bytesOf c ++ y) :
    ∃ rest, text = c :: rest ∧ rest.flatMap bytesOf = y := by
  cases text with
  | nil => simp [bytesOf_eq] at whole
  | cons d rest =>
      rw [List.flatMap_cons] at whole
      rcases lt_trichotomy c d with below | rfl | above
      · exact absurd (whole ▸ bytesOf_append_lt below _ _) (List.lt_irrefl _)
      · exact ⟨rest, rfl, List.append_cancel_left whole⟩
      · exact absurd (whole ▸ bytesOf_append_lt above _ _) (List.lt_irrefl _)

end ParameterHints.Text
