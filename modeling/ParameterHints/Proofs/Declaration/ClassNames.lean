import ParameterHints.Proofs.Declaration.Ledger
import ParameterHints.Proofs.Declaration.Lookup

/-! # Classes by the names they were added with

A class of a table was added by one change, with a qualified name or without. So what a path finds
can be told from the changes: the first class that was added under it, or else the only one that
goes by it as a simple name.
-/

namespace ParameterHints.Table

variable {changes : List TableChange} {path : String} {id : ClassId} {c : ClassDecl}

/-- One of the changes added a class, and an id was the next at that time. -/
def ClassAdded (changes : List TableChange) (id : ClassId) (c : ClassDecl) : Prop :=
  ∃ before change after, changes = before ++ change :: after ∧ change.Declares c ∧
    (ofChanges before).nextClass = id

/-- A class was added with a path as its qualified name. -/
def AddedUnder (changes : List TableChange) (path : String) (id : ClassId) : Prop :=
  ∃ c, ClassAdded changes id c ∧ c.qualifiedName = some path

/-- A class was added that has a path as its simple name. -/
def AddedNamed (changes : List TableChange) (path : String) (id : ClassId) : Prop :=
  ∃ c, ClassAdded changes id c ∧ c.name = path

theorem ClassAdded.later (h : ClassAdded changes id c) (change : TableChange) :
    ClassAdded (changes ++ [change]) id c := by
  obtain ⟨before, added, after, rfl, declares, next⟩ := h
  exact ⟨before, added, after ++ [change], by simp, declares, next⟩

/-- The classes of a table are those that were added. -/
theorem class?_eq_some_iff : (ofChanges changes).class? id = some c ↔ ClassAdded changes id c := by
  constructor
  · intro known
    induction changes using List.reverseRecOn with
    | nil => simp [ofChanges, empty, class?] at known
    | append_singleton front change ih =>
        rw [ofChanges_concat] at known
        rcases classes_apply (ofChanges front) change with ⟨-, same⟩ | ⟨d, declares, -, added⟩
        · rw [class?, same] at known
          exact (ih known).later change
        · rw [class?_of_push added] at known
          split at known
          · next new =>
              cases known
              exact ⟨front, change, [], rfl, declares, new.symm⟩
          · exact (ih known).later change
  · rintro ⟨before, change, after, rfl, declares, rfl⟩
    have there := class?_of_declares declares (ofChanges before)
    rw [← ofChanges_concat] at there
    rw [List.append_cons]
    exact (keptIn_later _ after).classes _ _ there

theorem qualifiedAs_iff : (ofChanges changes).QualifiedAs path id ↔ AddedUnder changes path id :=
  exists_congr fun _ => and_congr_left' class?_eq_some_iff

theorem namedAs_iff : (ofChanges changes).NamedAs path id ↔ AddedNamed changes path id :=
  exists_congr fun _ => and_congr_left' class?_eq_some_iff

/-- A path finds the first class that was added with it as its qualified name. If there is none, it
    finds the only class that has it as its simple name. -/
theorem path_finds_first_or_only (changes : List TableChange) (path : String) :
    (∀ id, (ofChanges changes).findClass? path = some id ↔
      (AddedUnder changes path id ∧ ∀ other < id, ¬ AddedUnder changes path other) ∨
        ((∀ other, ¬ AddedUnder changes path other) ∧ AddedNamed changes path id ∧
          ∀ other, AddedNamed changes path other → other = id)) ∧
    ∀ other, AddedUnder changes path other →
      ∃ id ≤ other, AddedUnder changes path id ∧ (ofChanges changes).findClass? path = some id := by
  simp only [← qualifiedAs_iff, ← namedAs_iff]
  refine ⟨fun id => findClass?_eq_some_iff, fun other qualified => ?_⟩
  obtain ⟨id, found⟩ := exists_findClass? (.inl qualified)
    fun ambiguous => ambiguous.unqualified other qualified
  rcases findClass?_eq_some_iff.mp found with ⟨here, first⟩ | ⟨none, -⟩
  · exact ⟨id, Nat.not_lt.mp fun less => first other less qualified, here, found⟩
  · exact absurd qualified (none other)

/-- A local class, a class in a package and one without a package have a simple name in common. -/
def homonyms : List TableChange :=
  [.addLocalClass "A", .addClass "q.A", .addClass "q.B", .addClass "A", .addClass "A"]

/-- The first one that has it as its qualified name is found. Another simple name belongs to one
    class only. -/
theorem homonyms_found :
    AddedNamed homonyms "A" 0 ∧ AddedUnder homonyms "A" 4 ∧
      (ofChanges homonyms).findClass? "A" = some 3 ∧
      (∃ id ≤ 4, AddedUnder homonyms "A" id ∧ (ofChanges homonyms).findClass? "A" = some id) ∧
      (ofChanges homonyms).findClass? "B" = some 2 ∧
      ∀ other, AddedNamed homonyms "B" other → other = 2 := by
  have last : AddedUnder homonyms "A" 4 := ⟨⟨"A", some "A"⟩, class?_eq_some_iff.mp rfl, rfl⟩
  have found : (ofChanges homonyms).findClass? "B" = some 2 := by decide +kernel
  refine ⟨⟨⟨"A", none⟩, class?_eq_some_iff.mp rfl, rfl⟩, last, by decide +kernel,
    (path_finds_first_or_only homonyms "A").2 4 last, found, ?_⟩
  rcases ((path_finds_first_or_only homonyms "B").1 2).mp found with
    ⟨⟨c, added, qualified⟩, -⟩ | ⟨-, -, only⟩
  · have other : (ofChanges homonyms).class? 2 = some ⟨"B", some "q.B"⟩ := rfl
    cases (class?_eq_some_iff.mpr added).symm.trans other
    simp at qualified
  · exact only

end ParameterHints.Table
