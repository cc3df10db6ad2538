import Mathlib.Data.List.Nodup
import Mathlib.Data.Nat.Find
import ParameterHints.Proofs.Declaration.Index

/-! # Classes by path

A path finds the first class with that qualified name, or else the only one with that simple name.
The table goes through its classes once, and it makes no difference where among them the two kinds
of match stand.
-/

namespace ParameterHints

/-- What is known of a simple name after the classes of some ids turned out to have it. -/
def SimpleMatch.after (ids : List ClassId) (known : SimpleMatch) : SimpleMatch :=
  ids.foldl (fun known id => known.found id) known

namespace SimpleMatch

theorem after_ambiguous (ids : List ClassId) : after ids ambiguous = ambiguous := by
  induction ids with
  | nil => rfl
  | cons first rest ih => exact ih

/-- A single class is meant by a simple name that no other class has. -/
theorem id?_after_eq_some_iff {ids : List ClassId} {id : ClassId} :
    (after ids absent).id? = some id ↔ ids = [id] := by
  rcases ids with _ | ⟨first, _ | ⟨second, rest⟩⟩
  · simp [after, id?]
  · simp [after, found, id?]
  · have several : after (first :: second :: rest) absent = ambiguous := after_ambiguous rest
    simp [several, id?]

end SimpleMatch

namespace Table

variable {t : Table} {path : String} {id : ClassId}

/-- The class of an id has a path as its qualified name. -/
def QualifiedAs (t : Table) (path : String) (id : ClassId) : Prop :=
  ∃ c, t.class? id = some c ∧ c.qualifiedName = some path

/-- The class of an id has a path as its simple name. -/
def NamedAs (t : Table) (path : String) (id : ClassId) : Prop :=
  ∃ c, t.class? id = some c ∧ c.name = path

/-- The ids of the classes with a simple name, among classes that are numbered from `id`. -/
def namedFrom (path : String) (id : ClassId) (classes : List ClassDecl) : List ClassId :=
  ((classes.zipIdx id).filter (·.1.name = path)).map Prod.snd

theorem namedFrom_cons (path : String) (id : ClassId) (c : ClassDecl) (rest : List ClassDecl) :
    namedFrom path id (c :: rest) =
      if c.name = path then id :: namedFrom path (id + 1) rest
      else namedFrom path (id + 1) rest := by
  by_cases same : c.name = path <;> simp [namedFrom, same]

theorem namedFrom_nodup (path : String) (id : ClassId) (classes : List ClassDecl) :
    (namedFrom path id classes).Nodup := by
  have distinct : ((classes.zipIdx id).map Prod.snd).Nodup := by
    rw [List.zipIdx_map_snd]
    exact List.nodup_range'
  exact (List.filter_sublist.map Prod.snd).nodup distinct

theorem mem_namedFrom : id ∈ namedFrom path 0 t.classes.toList ↔ t.NamedAs path id := by
  simp [namedFrom, NamedAs, class?, List.mk_mem_zipIdx_iff_getElem?]

/-- A search is over at the first class with the qualified name. Where there is none, the classes
    with the simple name decide. -/
theorem findClassFrom_eq (path : String) (id : ClassId) (simple : SimpleMatch)
    (classes : List ClassDecl) :
    findClassFrom path id simple classes =
      match classes.findIdx? (·.qualifiedName = some path) with
      | some i => some (id + i)
      | none => (simple.after (namedFrom path id classes)).id? := by
  induction classes generalizing id simple with
  | nil => rfl
  | cons c rest ih =>
      rw [findClassFrom, List.findIdx?_cons]
      by_cases qualified : c.qualifiedName = some path
      · simp [qualified]
      · have other : decide (c.qualifiedName = some path) = false := decide_eq_false qualified
        rw [if_neg qualified, ih, namedFrom_cons, other]
        cases rest.findIdx? (·.qualifiedName = some path) with
        | some i => simp [Nat.add_comm i, Nat.add_assoc]
        | none => by_cases same : c.name = path <;> simp [same, SimpleMatch.after]

/-- The search for a qualified name ends at the first class that has it. -/
theorem findIdx?_qualified_eq_some_iff :
    t.classes.toList.findIdx? (·.qualifiedName = some path) = some id ↔
      t.QualifiedAs path id ∧ ∀ other < id, ¬ t.QualifiedAs path other := by
  rw [List.findIdx?_eq_some_iff_getElem]
  constructor
  · rintro ⟨inside, here, before⟩
    have inside : id < t.classes.size := by simpa using inside
    refine ⟨⟨t.classes[id], Array.getElem?_eq_getElem inside, by simpa using here⟩, ?_⟩
    rintro other less ⟨c, known, qualified⟩
    obtain ⟨within, rfl⟩ := Array.getElem?_eq_some_iff.mp known
    exact before other less (by simpa using qualified)
  · rintro ⟨⟨c, known, qualified⟩, first⟩
    obtain ⟨inside, rfl⟩ := Array.getElem?_eq_some_iff.mp known
    refine ⟨by simpa using inside, by simpa using qualified, fun other less also => ?_⟩
    have within : other < t.classes.size := Nat.lt_trans less inside
    exact first other less ⟨t.classes[other], Array.getElem?_eq_getElem within, by simpa using also⟩

theorem findIdx?_qualified_eq_none_iff :
    t.classes.toList.findIdx? (·.qualifiedName = some path) = none ↔
      ∀ id, ¬ t.QualifiedAs path id := by
  rw [List.findIdx?_eq_none_iff]
  constructor
  · rintro none id ⟨c, known, qualified⟩
    have listed : c ∈ t.classes.toList := Array.mem_toList_iff.mpr (Array.mem_of_getElem? known)
    exact of_decide_eq_false (none c listed) qualified
  · intro none c listed
    obtain ⟨id, known⟩ := List.mem_iff_getElem?.mp listed
    exact decide_eq_false fun qualified =>
      none id ⟨c, Array.getElem?_toList.symm.trans known, qualified⟩

/-- The qualified name goes before the simple one, wherever the classes stand. -/
theorem findClass?_eq_some_iff : t.findClass? path = some id ↔
    (t.QualifiedAs path id ∧ ∀ other < id, ¬ t.QualifiedAs path other) ∨
      ((∀ other, ¬ t.QualifiedAs path other) ∧ t.NamedAs path id ∧
        ∀ other, t.NamedAs path other → other = id) := by
  rw [findClass?, findClassFrom_eq, ← findIdx?_qualified_eq_some_iff,
    ← findIdx?_qualified_eq_none_iff]
  cases t.classes.toList.findIdx? (·.qualifiedName = some path) with
  | some first => simp
  | none =>
      have only : namedFrom path 0 t.classes.toList = [id] ↔
          t.NamedAs path id ∧ ∀ other, t.NamedAs path other → other = id := by
        simpa only [mem_namedFrom] using
          ids_eq_singleton_iff (namedFrom_nodup path 0 t.classes.toList)
      simp [SimpleMatch.id?_after_eq_some_iff, only]

/-- The class of an id goes by a path, as its qualified name or as its simple one. -/
def GoesBy (t : Table) (path : String) (id : ClassId) : Prop :=
  t.QualifiedAs path id ∨ t.NamedAs path id

/-- No class has a path as its qualified name, and several have it as their simple name. -/
structure Ambiguous (t : Table) (path : String) : Prop where
  unqualified : ∀ id, ¬ t.QualifiedAs path id
  shared : ∃ id other, id ≠ other ∧ t.NamedAs path id ∧ t.NamedAs path other

/-- The class that a path finds goes by it. -/
theorem goesBy_of_findClass? (h : t.findClass? path = some id) : t.GoesBy path id := by
  rcases findClass?_eq_some_iff.mp h with ⟨qualified, -⟩ | ⟨-, named, -⟩
  · exact .inl qualified
  · exact .inr named

/-- A path that classes go by finds one of them unless it is ambiguous. -/
theorem exists_findClass? (known : t.GoesBy path id) (clear : ¬ t.Ambiguous path) :
    ∃ owner, t.findClass? path = some owner := by
  by_cases qualified : ∃ id, t.QualifiedAs path id
  · classical
    exact ⟨Nat.find qualified, findClass?_eq_some_iff.mpr
      (.inl ⟨Nat.find_spec qualified, fun _ less => Nat.find_min qualified less⟩)⟩
  · have unqualified : ∀ id, ¬ t.QualifiedAs path id := fun id also => qualified ⟨id, also⟩
    have named : t.NamedAs path id := known.resolve_left (unqualified id)
    refine ⟨id, findClass?_eq_some_iff.mpr (.inr ⟨unqualified, named, fun other also => ?_⟩)⟩
    by_contra different
    exact clear ⟨unqualified, other, id, different, also, named⟩

/-- An ambiguous path finds no class, as if it were unknown. -/
theorem findClass?_of_ambiguous (h : t.Ambiguous path) : t.findClass? path = none := by
  obtain ⟨unqualified, id, other, different, named, also⟩ := h
  rw [Option.eq_none_iff_forall_ne_some]
  intro owner found
  rcases findClass?_eq_some_iff.mp found with ⟨qualified, -⟩ | ⟨-, -, only⟩
  · exact unqualified owner qualified
  · exact different ((only id named).trans (only other also).symm)

end Table

end ParameterHints
