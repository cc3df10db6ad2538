import Mathlib.Data.List.Induction
import Mathlib.Data.List.Nodup
import Mathlib.Data.List.Perm.Subperm

/-! # First occurrences

A list without its repetitions has every member of the list where that first occurs. Whatever a
search through the list would find first is still found first.
-/

namespace ParameterHints

variable {α β : Type} [BEq α] [LawfulBEq α]

theorem eraseDups_concat (list : List α) (last : α) :
    (list ++ [last]).eraseDups =
      if last ∈ list then list.eraseDups else list.eraseDups ++ [last] := by
  rw [List.eraseDups_append]
  split
  · next old => simp [List.removeAll, old]
  · next new => simp [List.removeAll, new, List.eraseDups_cons]

theorem nodup_eraseDups (list : List α) : list.eraseDups.Nodup := by
  induction list using List.reverseRecOn with
  | nil => exact .nil
  | append_singleton front last ih =>
      rw [eraseDups_concat]
      split
      · exact ih
      · next new =>
          rw [← List.concat_eq_append]
          exact ih.concat (by rwa [List.mem_eraseDups])

theorem eraseDups_sublist (list : List α) : list.eraseDups.Sublist list := by
  induction list using List.reverseRecOn with
  | nil => exact .slnil
  | append_singleton front last ih =>
      rw [eraseDups_concat]
      split
      · exact ih.trans (List.sublist_append_left front [last])
      · exact ih.append_right [last]

theorem eraseDups_of_nodup {list : List α} (distinct : list.Nodup) : list.eraseDups = list :=
  (eraseDups_sublist list).eq_of_length_le
    ((List.subperm_of_subset distinct fun _ member => List.mem_eraseDups.mpr member).length_le)

/-- A search goes past a repetition, having gone past its first occurrence. -/
theorem findSome?_eraseDups (f : α → Option β) (list : List α) :
    list.eraseDups.findSome? f = list.findSome? f := by
  induction list using List.reverseRecOn with
  | nil => rfl
  | append_singleton front last ih =>
      rw [eraseDups_concat, List.findSome?_append]
      split
      · next old =>
          rw [ih]
          cases found : front.findSome? f with
          | some y => rfl
          | none => simp [List.findSome?_eq_none_iff.mp found last old]
      · rw [List.findSome?_append, ih]

end ParameterHints
