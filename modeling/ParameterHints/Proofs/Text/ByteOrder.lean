import Mathlib.Data.String.Basic
import ParameterHints.Glob.Basic

/-! # The order of bytes

Texts are ordered by their characters, and their UTF-8 bytes are in the same order. The first byte
of a character tells how many follow it, and the more they are, the greater the character is. Those
that follow hold six bits of the code point each, the high bits first.
-/

namespace ParameterHints.Text

open Glob (bytesOf)

/-- The last bytes of a character, given its code point and their number. -/
def continuation (point : Nat) : Nat → List UInt8
  | 0 => []
  | count + 1 => UInt8.ofNat (point / 64 ^ count % 64 + 128) :: continuation point count

/-- How many bytes follow the first one. -/
def following (point : Nat) : Nat :=
  if point ≤ 127 then 0 else if point ≤ 2047 then 1 else if point ≤ 65535 then 2 else 3

/-- The least first byte that so many bytes follow. -/
def mark : Nat → Nat
  | 0 => 0
  | 1 => 192
  | 2 => 224
  | _ => 240

/-- The first byte of a character. -/
def lead (point : Nat) : Nat := point / 64 ^ following point + mark (following point)

variable {c d : Char} {v w : Nat}

theorem toNat_lt (c : Char) : c.toNat < 0x110000 := by
  rcases c.valid with low | ⟨-, high⟩
  · exact Nat.lt_trans low (by decide)
  · exact high

theorem bytesOf_eq (c : Char) :
    bytesOf c = UInt8.ofNat (lead c.toNat) :: continuation c.toNat (following c.toNat) := by
  have bound := toNat_lt c
  have point : c.val.toNat = c.toNat := rfl
  simp only [bytesOf, String.utf8EncodeChar, lead, following, point]
  split_ifs
  · simp [continuation, mark]
  · have fits : c.toNat / 64 % 32 = c.toNat / 64 := Nat.mod_eq_of_lt (by omega)
    simp [continuation, mark, fits]
  · have fits : c.toNat / 4096 % 16 = c.toNat / 4096 := Nat.mod_eq_of_lt (by omega)
    simp [continuation, mark, fits]
  · have fits : c.toNat / 262144 % 8 = c.toNat / 262144 := Nat.mod_eq_of_lt (by omega)
    simp [continuation, mark, fits]

theorem ofNat_lt_ofNat (less : v < w) (small : w < 256) : UInt8.ofNat v < UInt8.ofNat w := by
  rw [UInt8.lt_iff_toNat_lt, UInt8.toNat_ofNat', UInt8.toNat_ofNat']
  omega

theorem lead_lt (bound : v < 0x110000) : lead v < 256 := by
  simp only [lead, following]
  split_ifs <;> simp only [mark, Nat.reducePow, Nat.div_one] <;> omega

/-- Where the first bytes agree, as many bytes follow, and these make the difference. -/
theorem lead_lt_or (less : v < w) (bound : w < 0x110000) : lead v < lead w ∨
    lead v = lead w ∧ following v = following w ∧
      v % 64 ^ following w < w % 64 ^ following w := by
  simp only [lead, following]
  split_ifs <;> simp only [mark, Nat.reducePow, Nat.div_one, true_and] <;> omega

/-- It does not matter what stands behind bytes that differ. -/
theorem continuation_append_lt {count : Nat} (less : v % 64 ^ count < w % 64 ^ count)
    (xs ys : List UInt8) : continuation v count ++ xs < continuation w count ++ ys := by
  induction count with
  | zero => simp [Nat.mod_one] at less
  | succ count ih =>
      have digit (n : Nat) : n / 64 ^ count % 64 < 64 := Nat.mod_lt _ (by decide)
      have rest (n : Nat) : n % 64 ^ count < 64 ^ count := Nat.mod_lt n (Nat.pow_pos (by decide))
      simp only [Nat.pow_succ, Nat.mod_mul] at less
      rw [continuation, continuation, List.cons_append, List.cons_append, List.cons_lt_cons_iff]
      rcases Nat.lt_trichotomy (v / 64 ^ count % 64) (w / 64 ^ count % 64) with below | same | above
      · have small := digit w
        exact .inl (ofNat_lt_ofNat (Nat.add_lt_add_right below 128) (by omega))
      · rw [same] at less ⊢
        exact .inr ⟨rfl, ih (Nat.lt_of_add_lt_add_right less)⟩
      · -- A greater digit in front outweighs all that stand behind it.
        have whole := Nat.mul_le_mul_left (64 ^ count) (Nat.succ_le_of_lt above)
        have behind := rest w
        rw [Nat.mul_succ] at whole
        omega

theorem bytesOf_append_lt (less : c < d) (xs ys : List UInt8) :
    bytesOf c ++ xs < bytesOf d ++ ys := by
  rw [bytesOf_eq, bytesOf_eq, List.cons_append, List.cons_append, List.cons_lt_cons_iff]
  have points : c.toNat < d.toNat := less
  rcases lead_lt_or points (toNat_lt d) with below | ⟨same, counted, rest⟩
  · exact .inl (ofNat_lt_ofNat below (lead_lt (toNat_lt d)))
  · rw [same, counted]
    exact .inr ⟨rfl, continuation_append_lt rest xs ys⟩

theorem bytes_lt_of_lt {cs ds : List Char} (less : cs < ds) :
    cs.flatMap bytesOf < ds.flatMap bytesOf := by
  induction less with
  | nil =>
      rw [List.flatMap_cons, bytesOf_eq]
      exact .nil
  | rel first => exact bytesOf_append_lt first _ _
  | cons _ ih => exact List.append_left_lt ih

/-- The bytes of a text in UTF-8. -/
def bytes (text : String) : List UInt8 := text.toUTF8.data.toList

theorem bytes_eq (text : String) : bytes text = text.toList.flatMap bytesOf := by
  have encoded := String.toByteArray_ofList (l := text.toList)
  rw [String.ofList_toList] at encoded
  rw [bytes, String.toUTF8, encoded, List.utf8Encode, List.toList_data_toByteArray]
  rfl

/-- Texts are ordered as their bytes are. -/
theorem bytes_lt_bytes_iff {a b : String} : bytes a < bytes b ↔ a < b := by
  have ascending {a b : String} (less : a < b) : bytes a < bytes b := by
    rw [bytes_eq, bytes_eq]
    exact bytes_lt_of_lt (String.lt_iff_toList_lt.mp less)
  refine ⟨fun less => ?_, ascending⟩
  rcases lt_trichotomy a b with below | rfl | above
  · exact below
  · exact absurd less (List.lt_irrefl _)
  · exact absurd less (List.lt_asymm (ascending above))

end ParameterHints.Text
