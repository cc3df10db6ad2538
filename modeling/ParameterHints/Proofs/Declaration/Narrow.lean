import ParameterHints.Proofs.Declaration.History
import ParameterHints.Proofs.Syntax.Narrow

/-! # Tables in 32 bits

The ids of classes and methods are numbers of 32 bits as well. The classes and methods themselves
are kept in order however many there are, but an id loses its upper bits when it is given out, so
behind 2 ^ 32 methods the ids of the index start again with 0. As far as the numbers reach, a table
is what comes of ids without a bound.
-/

namespace ParameterHints

namespace NameIndex

/-- An index that lists what is left of the ids. -/
def words (index : NameIndex) : NameIndex :=
  index.map fun (name, listed) => (name, listed.map Narrow.word)

theorem ids_words (index : NameIndex) (name : String) :
    index.words.ids name = (index.ids name).map Narrow.word := by
  induction index with
  | nil => rfl
  | cons entry rest ih =>
      obtain ⟨key, listed⟩ := entry
      simp only [words, List.map_cons, ids_cons] at ih ⊢
      split
      · rfl
      · exact ih

theorem insert_words (index : NameIndex) (name : String) (id : MethodId) :
    insert name (Narrow.word id) index.words = (insert name id index).words := by
  induction index with
  | nil => rfl
  | cons entry rest ih =>
      obtain ⟨key, listed⟩ := entry
      simp only [words, List.map_cons, insert] at ih ⊢
      split
      · simp only [List.map_cons, List.map_append, List.map_nil]
      · rw [ih, List.map_cons]

end NameIndex

namespace Narrow

/-- Add a method under what is left of its id. -/
def addMethod (t : Table) (m : Method) : Table :=
  { t with methods := t.methods.push m, byName := t.byName.insert m.name (word t.nextMethod) }

def addWrapper? (t : Table) (target : MethodId) : Option Table :=
  (t.wrapper? target).map (addMethod t)

/-- The table after a change. -/
def alter (t : Table) : TableChange → Table
  | .addClass qualifiedName => t.addClass qualifiedName
  | .addLocalClass name => t.addLocalClass name
  | .addMethod m => addMethod t m
  | .addWrapper target => (addWrapper? t target).getD t

/-- The table that a sequence of changes makes of the empty one. -/
def table (changes : List TableChange) : Table := changes.foldl alter .empty

/-- The class of a path among classes that stand from `index` on. -/
def findClassFrom (path : String) (index : Nat) (simple : SimpleMatch) :
    List ClassDecl → Option ClassId
  | [] => simple.id?
  | c :: rest =>
      if c.qualifiedName = some path then some (word index)
      else
        findClassFrom path (index + 1) (if c.name = path then simple.found (word index) else simple)
          rest

def findClass? (t : Table) (path : String) : Option ClassId :=
  findClassFrom path 0 .absent t.classes.toList

/-- Every class and every method of a table has a number of its own. -/
structure Addressable (t : Table) : Prop where
  classes : t.nextClass ≤ maxOffset + 1
  methods : t.nextMethod ≤ maxOffset + 1

variable {t : Table} {change : TableChange} {changes : List TableChange}

/-! ## Any number of classes and methods -/

/-- A table with what is left of the ids in its index. -/
def storedIndex (t : Table) : Table := { t with byName := t.byName.words }

theorem addMethod_storedIndex (t : Table) (m : Method) :
    addMethod (storedIndex t) m = storedIndex (t.addMethod m) :=
  congrArg (Table.mk t.classes (t.methods.push m)) (NameIndex.insert_words _ _ _)

theorem alter_addWrapper_of_none {target : MethodId} (h : t.wrapper? target = none) :
    alter t (.addWrapper target) = t := by
  simp only [alter, addWrapper?, h, Option.map_none, Option.getD_none]

theorem alter_addWrapper_of_some {target : MethodId} {m : Method} (h : t.wrapper? target = some m) :
    alter t (.addWrapper target) = addMethod t m := by
  simp only [alter, addWrapper?, h, Option.map_some, Option.getD_some]

/-- A change does what it does with ids without a bound, or it adds a method as that does. -/
theorem alter_cases (t : Table) (change : TableChange) :
    alter t change = change.apply t ∨
      ∃ m, alter t change = addMethod t m ∧ change.apply t = t.addMethod m := by
  cases change with
  | addClass qualifiedName => exact .inl rfl
  | addLocalClass name => exact .inl rfl
  | addMethod m => exact .inr ⟨m, rfl, rfl⟩
  | addWrapper target =>
      cases made : t.wrapper? target with
      | none =>
          left
          rw [alter_addWrapper_of_none made, Table.apply_addWrapper_of_none made]
      | some m =>
          right
          exact ⟨m, alter_addWrapper_of_some made, Table.apply_addWrapper_of_some made⟩

theorem classes_alter (t : Table) (change : TableChange) :
    (alter t change).classes = (change.apply t).classes := by
  rcases alter_cases t change with same | ⟨m, altered, applied⟩
  · rw [same]
  · rw [altered, applied]
    rfl

theorem methods_alter (t : Table) (change : TableChange) :
    (alter t change).methods = (change.apply t).methods := by
  rcases alter_cases t change with same | ⟨m, altered, applied⟩
  · rw [same]
  · rw [altered, applied]
    rfl

theorem alter_storedIndex (t : Table) (change : TableChange) :
    alter (storedIndex t) change = storedIndex (change.apply t) := by
  cases change with
  | addClass qualifiedName => rfl
  | addLocalClass name => rfl
  | addMethod m => exact addMethod_storedIndex t m
  | addWrapper target =>
      cases made : t.wrapper? target with
      | none =>
          have unmade : (storedIndex t).wrapper? target = none := made
          rw [alter_addWrapper_of_none unmade, Table.apply_addWrapper_of_none made]
      | some m =>
          have remade : (storedIndex t).wrapper? target = some m := made
          rw [alter_addWrapper_of_some remade, Table.apply_addWrapper_of_some made]
          exact addMethod_storedIndex t m

/-- Classes and methods are those of the table without a bound; only the index is cut. -/
theorem table_eq_storedIndex (changes : List TableChange) :
    table changes = storedIndex (Table.ofChanges changes) := by
  have run : changes.foldl alter (storedIndex .empty) =
      storedIndex (changes.foldl TableChange.apply .empty) :=
    List.foldl_hom storedIndex alter_storedIndex
  exact run

theorem nextClass_table (changes : List TableChange) :
    (table changes).nextClass = (Table.ofChanges changes).nextClass := by
  rw [table_eq_storedIndex]
  rfl

theorem nextMethod_table (changes : List TableChange) :
    (table changes).nextMethod = (Table.ofChanges changes).nextMethod := by
  rw [table_eq_storedIndex]
  rfl

theorem methodsNamed_table (changes : List TableChange) (name : String) :
    (table changes).methodsNamed name =
      ((Table.ofChanges changes).methodsNamed name).map word := by
  rw [table_eq_storedIndex]
  exact NameIndex.ids_words _ name

/-! ## As far as the numbers reach -/

theorem word_of_lt {n : Nat} (h : n < maxOffset + 1) : word n = n := word_of_le (by omega)

theorem map_word_range {n : Nat} (few : n ≤ maxOffset + 1) :
    (List.range n).map word = List.range n := by
  have kept : ∀ id ∈ List.range n, word id = id := fun id member => by
    have inside := List.mem_range.mp member
    exact word_of_lt (by omega)
  exact (List.map_congr_left kept).trans (List.map_id _)

theorem addMethod_eq (m : Method) (few : (t.addMethod m).nextMethod ≤ maxOffset + 1) :
    addMethod t m = t.addMethod m := by
  rw [Table.nextMethod_addMethod] at few
  have kept : word t.nextMethod = t.nextMethod := word_of_lt few
  simp only [addMethod, Table.addMethod, kept]

theorem alter_eq (few : (change.apply t).nextMethod ≤ maxOffset + 1) :
    alter t change = change.apply t := by
  rcases alter_cases t change with same | ⟨m, altered, applied⟩
  · exact same
  · rw [applied] at few ⊢
    rw [altered]
    exact addMethod_eq m few

/-- A table whose ids all fit is the table without a bound. -/
theorem table_eq (few : Addressable (table changes)) : table changes = Table.ofChanges changes := by
  replace few : (Table.ofChanges changes).nextMethod ≤ maxOffset + 1 :=
    nextMethod_table changes ▸ few.methods
  induction changes using List.reverseRecOn with
  | nil => rfl
  | append_singleton front last ih =>
      rw [Table.ofChanges_concat] at few ⊢
      have earlier := Nat.le_trans (Table.nextMethod_le_apply (Table.ofChanges front) last) few
      rw [table, List.foldl_append, ← table, ih earlier]
      exact alter_eq few

theorem findClassFrom_eq {path : String} {list : List ClassDecl} {index : Nat}
    (few : index + list.length ≤ maxOffset + 1) (simple : SimpleMatch) :
    findClassFrom path index simple list = Table.findClassFrom path index simple list := by
  induction list generalizing index simple with
  | nil => rfl
  | cons c rest ih =>
      rw [List.length_cons] at few
      have kept : word index = index := word_of_lt (by omega)
      have later := fun simple => @ih (index + 1) (by omega) simple
      simp only [findClassFrom, Table.findClassFrom, kept, later]

theorem findClass?_eq (few : Addressable t) (path : String) :
    findClass? t path = t.findClass? path := by
  refine findClassFrom_eq ?_ .absent
  rw [Array.length_toList, Nat.zero_add]
  exact few.classes

end Narrow

end ParameterHints
