import Mathlib.Data.List.Nodup
import ParameterHints.Declaration.Table

/-! # The index of a table

A table keeps the methods of each name beside the methods themselves. However it was made, the
index lists all methods of a name and no others, each once and in the order of their ids.
-/

namespace ParameterHints.Table

variable {t : Table} {target : MethodId}

theorem apply_addWrapper_of_none (h : t.wrapper? target = none) :
    (TableChange.addWrapper target).apply t = t := by
  simp [TableChange.apply, addWrapper?, h]

theorem apply_addWrapper_of_some {m : Method} (h : t.wrapper? target = some m) :
    (TableChange.addWrapper target).apply t = t.addMethod m := by
  simp [TableChange.apply, addWrapper?, h]

/-- The index of the names agrees with the methods. -/
structure Indexed (t : Table) : Prop where
  ascending : ∀ name, (t.methodsNamed name).Pairwise (· < ·)
  complete : ∀ name id, id ∈ t.methodsNamed name ↔ ∃ m, t.method? id = some m ∧ m.name = name

theorem method?_addMethod (t : Table) (m : Method) (id : MethodId) :
    (t.addMethod m).method? id = if id = t.nextMethod then some m else t.method? id :=
  Array.getElem?_push

theorem nextMethod_addMethod (t : Table) (m : Method) :
    (t.addMethod m).nextMethod = t.nextMethod + 1 :=
  Array.size_push _

theorem method?_nextMethod (t : Table) : t.method? t.nextMethod = none :=
  Array.getElem?_eq_none (Nat.le_refl _)

theorem id_lt_nextMethod {id : MethodId} {m : Method} (h : t.method? id = some m) :
    id < t.nextMethod :=
  (Array.getElem?_eq_some_iff.mp h).1

theorem indexed_empty : Table.empty.Indexed where
  ascending _ := .nil
  complete _ _ := by simp [methodsNamed, NameIndex.ids_nil, empty, method?]

/-- A new method is listed behind the older ones of its name. -/
theorem Indexed.addMethod (h : t.Indexed) (m : Method) : (t.addMethod m).Indexed where
  ascending name := by
    rw [methodsNamed_addMethod]
    split
    · refine List.pairwise_append.mpr ⟨h.ascending name, List.pairwise_singleton _ _, ?_⟩
      intro id listed last member
      obtain ⟨older, found, -⟩ := (h.complete name id).mp listed
      rw [List.mem_singleton.mp member]
      exact id_lt_nextMethod found
    · exact h.ascending name
  complete name id := by
    rw [methodsNamed_addMethod, method?_addMethod]
    by_cases new : id = t.nextMethod
    · have unlisted : id ∉ t.methodsNamed name := by
        rw [h.complete, new, method?_nextMethod]
        simp
      by_cases same : name = m.name
      · simp [same, new]
      · have other : ¬ m.name = name := fun eq => same eq.symm
        simp [same, new, other, new ▸ unlisted]
    · rw [if_neg new]
      split
      · simp [new, h.complete]
      · exact h.complete name id

/-- Every change keeps the index. -/
theorem Indexed.apply (h : t.Indexed) (change : TableChange) : (change.apply t).Indexed := by
  cases change with
  | addClass qualifiedName => exact ⟨h.ascending, h.complete⟩
  | addLocalClass name => exact ⟨h.ascending, h.complete⟩
  | addMethod m => exact h.addMethod m
  | addWrapper target =>
      cases made : t.wrapper? target with
      | none => rwa [apply_addWrapper_of_none made]
      | some m =>
          rw [apply_addWrapper_of_some made]
          exact h.addMethod m

theorem indexed_ofChanges (changes : List TableChange) : (ofChanges changes).Indexed := by
  have run : ∀ t : Table, t.Indexed → (changes.foldl TableChange.apply t).Indexed := by
    induction changes with
    | nil => exact fun t h => h
    | cons change rest ih => exact fun t h => ih _ (h.apply change)
  exact run _ indexed_empty

/-- Of ids that are listed once each, a single one is all of them exactly if there is no other. -/
theorem ids_eq_singleton_iff {ids : List Nat} (distinct : ids.Nodup) {id : Nat} :
    ids = [id] ↔ id ∈ ids ∧ ∀ other ∈ ids, other = id := by
  constructor
  · rintro rfl
    simp
  · rintro ⟨member, same⟩
    by_contra several
    rcases (distinct.ne_singleton_iff id).mp several with rfl | ⟨other, listed, different⟩
    · cases member
    · exact different (same other listed)

end ParameterHints.Table
