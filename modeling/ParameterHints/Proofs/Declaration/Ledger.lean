import Mathlib.Data.List.Sort
import ParameterHints.Proofs.Declaration.Narrow

/-! # The ledger of a table

A change answers with the id of what it enters. Over any sequence of changes the answers count up
from 0, in 32 bits; what was entered stays as it was, and the index lists the ids of all methods of
a name in order. As far as the numbers reach, each id is given once, and what it was given to is
found under it.
-/

namespace ParameterHints

namespace Table

open TableChange (classId? methodId?)

variable {t : Table} {change : TableChange} {m : Method}

/-- The numbers of the methods of a name, in order. -/
def placesOf (t : Table) (name : String) : List MethodId :=
  (List.range t.nextMethod).filter fun id => (t.method? id).map Method.name = some name

theorem Indexed.methodsNamed_eq (h : t.Indexed) (name : String) :
    t.methodsNamed name = t.placesOf name := by
  refine (h.ascending name).eq_of_mem_iff (List.pairwise_lt_range.filter _) fun id => ?_
  rw [h.complete, placesOf, List.mem_filter, List.mem_range, decide_eq_true_eq,
    Option.map_eq_some_iff]
  constructor
  · rintro ⟨m, found, named⟩
    exact ⟨id_lt_nextMethod found, m, found, named⟩
  · rintro ⟨-, listed⟩
    exact listed

/-- A change enters a method: one that is declared, or the wrapper around one that is there, which
    is a method of no class and lacks the first parameter. -/
inductive Enters (t : Table) : TableChange → Method → Prop where
  | declared (m : Method) : Enters t (.addMethod m) m
  | wrapped {target s receiver rest} : t.method? target = some s →
      s.parameters = receiver :: rest →
      Enters t (.addWrapper target) ⟨s.name, none, rest, .wrapper target⟩

theorem Enters.methodId?_eq (h : t.Enters change m) : methodId? t change = some t.nextMethod := by
  cases h with
  | declared => rfl
  | wrapped found parameters =>
      have made := wrapper?_eq_some_iff.mpr ⟨_, _, _, found, parameters, rfl⟩
      rw [methodId?, made, Option.map_some]

theorem Enters.apply_eq (h : t.Enters change m) : change.apply t = t.addMethod m := by
  cases h with
  | declared => rfl
  | wrapped found parameters =>
      exact apply_addWrapper_of_some (wrapper?_eq_some_iff.mpr ⟨_, _, _, found, parameters, rfl⟩)

theorem class?_of_split {changes before after : List TableChange} {c : ClassDecl}
    (split : changes = before ++ change :: after) (declares : change.Declares c) :
    (ofChanges changes).class? (ofChanges before).nextClass = some c := by
  have entered := class?_of_declares declares (ofChanges before)
  rw [← ofChanges_concat] at entered
  rw [split, List.append_cons]
  exact (keptIn_later _ after).classes _ c entered

theorem method?_of_split {changes before after : List TableChange}
    (split : changes = before ++ change :: after) (enters : (ofChanges before).Enters change m) :
    (ofChanges changes).method? (ofChanges before).nextMethod = some m := by
  have entered : (ofChanges (before ++ [change])).method? (ofChanges before).nextMethod =
      some m := by
    rw [ofChanges_concat, enters.apply_eq, method?_addMethod, if_pos rfl]
  rw [split, List.append_cons]
  exact method?_later entered

end Table

namespace Narrow

open Table (Enters)

/-- The id that a change answers for a class. -/
def classId? (t : Table) (change : TableChange) : Option ClassId :=
  (TableChange.classId? t change).map word

/-- The id that a change answers for a method. -/
def methodId? (t : Table) (change : TableChange) : Option MethodId :=
  (TableChange.methodId? t change).map word

theorem methodId?_addWrapper_eq_none_iff {t : Table} {target : MethodId} :
    methodId? t (.addWrapper target) = none ↔ t.wrapper? target = none := by
  rw [methodId?, TableChange.methodId?, Option.map_eq_none_iff, Option.map_eq_none_iff]

/-- The ids that a sequence of changes answers, in the order of the changes. -/
def issued (idOf? : Table → TableChange → Option Nat) (t : Table) : List TableChange → List Nat
  | [] => []
  | change :: rest => (idOf? t change).toList ++ issued idOf? (alter t change) rest

variable {t : Table} {change : TableChange} {changes : List TableChange}

/-- Where each change answers what comes next if it answers, a run of changes answers all that
    comes. -/
theorem append_issued {idOf? : Table → TableChange → Option Nat} {given : Table → List Nat}
    (next : ∀ t change, given t ++ (idOf? t change).toList = given (alter t change))
    (changes : List TableChange) (t : Table) :
    given t ++ issued idOf? t changes = given (changes.foldl alter t) := by
  induction changes generalizing t with
  | nil => exact List.append_nil _
  | cons change rest ih =>
      calc given t ++ issued idOf? t (change :: rest)
        _ = given t ++ (idOf? t change).toList ++ issued idOf? (alter t change) rest :=
            (List.append_assoc ..).symm
        _ = given (alter t change) ++ issued idOf? (alter t change) rest := by rw [next]
        _ = given (rest.foldl alter (alter t change)) := ih _

theorem classId?_next (t : Table) (change : TableChange) :
    (List.range t.nextClass).map word ++ (classId? t change).toList =
      (List.range (alter t change).nextClass).map word := by
  have unbounded := Table.classId?_next t change
  have same : (alter t change).nextClass = (change.apply t).nextClass :=
    congrArg Array.size (classes_alter t change)
  rw [same, ← unbounded, List.map_append, classId?, Option.toList_map]

theorem methodId?_next (t : Table) (change : TableChange) :
    (List.range t.nextMethod).map word ++ (methodId? t change).toList =
      (List.range (alter t change).nextMethod).map word := by
  have unbounded := Table.methodId?_next t change
  have same : (alter t change).nextMethod = (change.apply t).nextMethod :=
    congrArg Array.size (methods_alter t change)
  rw [same, ← unbounded, List.map_append, methodId?, Option.toList_map]

theorem classIds_issued (changes : List TableChange) :
    issued classId? .empty changes = (List.range (table changes).nextClass).map word :=
  append_issued classId?_next changes .empty

theorem methodIds_issued (changes : List TableChange) :
    issued methodId? .empty changes = (List.range (table changes).nextMethod).map word :=
  append_issued methodId?_next changes .empty

theorem keptIn_table (before after : List TableChange) :
    (table before).KeptIn (table (before ++ after)) := by
  have kept := Table.keptIn_later before after
  rw [table_eq_storedIndex, table_eq_storedIndex]
  exact ⟨kept.classes, kept.methods⟩

theorem enters_of_table {m : Method} (h : (table changes).Enters change m) :
    (Table.ofChanges changes).Enters change m := by
  rw [table_eq_storedIndex] at h
  cases h with
  | declared => exact .declared m
  | wrapped found parameters => exact .wrapped found parameters

end Narrow

namespace Table

open Narrow (word alter issued)

/-- A table accounts for the changes that made it, however many they are. Its ids are taken in 32
    bits; apart from that it has a place of its own for each class and each method. -/
structure Accounts (changes : List TableChange) (t : Table) : Prop where
  /-- The ids that classes were given count up from 0. -/
  classIds : issued Narrow.classId? .empty changes = (List.range t.nextClass).map word
  /-- The ids that methods were given count up from 0. -/
  methodIds : issued Narrow.methodId? .empty changes = (List.range t.nextMethod).map word
  /-- The index lists the ids of the methods of each name, of all of them and in order. -/
  listed : ∀ name, t.methodsNamed name = (t.placesOf name).map word
  /-- A class is entered behind the others, under the next id. -/
  declared : ∀ (change : TableChange) c, change.Declares c →
    Narrow.classId? t change = some (word t.nextClass) ∧
      (alter t change).classes = t.classes.push c
  /-- A method is entered behind the others, under the next id. -/
  entered : ∀ change m, t.Enters change m →
    Narrow.methodId? t change = some (word t.nextMethod) ∧
      (alter t change).methods = t.methods.push m
  /-- There is no wrapper exactly for a method that is unknown or has no parameters. -/
  refused_iff : ∀ target, Narrow.methodId? t (.addWrapper target) = none ↔
    ∀ s, t.method? target = some s → s.parameters = []
  /-- A wrapper that there is not changes nothing. -/
  refused : ∀ target, Narrow.methodId? t (.addWrapper target) = none →
    alter t (.addWrapper target) = t
  /-- Nothing that is in its place is changed later. -/
  kept : ∀ later, t.KeptIn (Narrow.table (changes ++ later))

/-- The ids that changes were answered identify what they entered. -/
structure Identifies (changes : List TableChange) (t : Table) : Prop where
  /-- The ids that classes were given are the numbers below that of the next class, in order. -/
  classIds : issued Narrow.classId? .empty changes = List.range t.nextClass
  /-- The ids that methods were given are the numbers below that of the next method, in order. -/
  methodIds : issued Narrow.methodId? .empty changes = List.range t.nextMethod
  /-- The index lists the methods of each name, all of them and each once, in order. -/
  indexed : t.Indexed
  /-- Every class is under the id it was given. -/
  declared : ∀ before change after c, changes = before ++ change :: after → change.Declares c →
    ∃ id, Narrow.classId? (Narrow.table before) change = some id ∧ t.class? id = some c
  /-- Every method is under the id it was given. -/
  entered : ∀ before change after m, changes = before ++ change :: after →
    (Narrow.table before).Enters change m →
    ∃ id, Narrow.methodId? (Narrow.table before) change = some id ∧ t.method? id = some m
  /-- A class is found as it would be with ids without a bound. -/
  found : ∀ path, Narrow.findClass? t path = t.findClass? path

theorem accounts_table (changes : List TableChange) : Accounts changes (Narrow.table changes) where
  classIds := Narrow.classIds_issued changes
  methodIds := Narrow.methodIds_issued changes
  listed name := by
    rw [Narrow.methodsNamed_table, (indexed_ofChanges changes).methodsNamed_eq,
      Narrow.table_eq_storedIndex]
    rfl
  declared change c declares := by
    obtain ⟨next, pushed⟩ := classes_of_declares declares (Narrow.table changes)
    exact ⟨congrArg (Option.map word) next, (Narrow.classes_alter _ change).trans pushed⟩
  entered change m enters := by
    have pushed := congrArg Table.methods enters.apply_eq
    exact ⟨congrArg (Option.map word) enters.methodId?_eq,
      (Narrow.methods_alter _ change).trans pushed⟩
  refused_iff target := by
    rw [Narrow.methodId?_addWrapper_eq_none_iff, wrapper?_eq_none_iff]
  refused target none :=
    Narrow.alter_addWrapper_of_none (Narrow.methodId?_addWrapper_eq_none_iff.mp none)
  kept later := Narrow.keptIn_table changes later

theorem identifies_table {changes : List TableChange}
    (few : Narrow.Addressable (Narrow.table changes)) :
    Identifies changes (Narrow.table changes) where
  classIds := (Narrow.classIds_issued changes).trans (Narrow.map_word_range few.classes)
  methodIds := (Narrow.methodIds_issued changes).trans (Narrow.map_word_range few.methods)
  indexed := by
    rw [Narrow.table_eq few]
    exact indexed_ofChanges changes
  declared before change after c split declares := by
    have there := class?_of_split split declares
    have inside := id_lt_nextClass there
    have given := (classes_of_declares declares (Narrow.table before)).1
    rw [← Narrow.nextClass_table changes] at inside
    refine ⟨(ofChanges before).nextClass, ?_, ?_⟩
    · rw [Narrow.classId?, given, Option.map_some, Narrow.nextClass_table,
        Narrow.word_of_lt (Nat.lt_of_lt_of_le inside few.classes)]
    · rw [Narrow.table_eq few, there]
  entered before change after m split enters := by
    have there := method?_of_split split (Narrow.enters_of_table enters)
    have inside := id_lt_nextMethod there
    rw [← Narrow.nextMethod_table changes] at inside
    refine ⟨(ofChanges before).nextMethod, ?_, ?_⟩
    · rw [Narrow.methodId?, enters.methodId?_eq, Option.map_some, Narrow.nextMethod_table,
        Narrow.word_of_lt (Nat.lt_of_lt_of_le inside few.methods)]
    · rw [Narrow.table_eq few, there]
  found path := Narrow.findClass?_eq few path

/-- Every table accounts for its changes. As long as there is a number of 32 bits for each class and
    each method, it is the table that comes of ids without a bound, and its ids identify what was
    entered. -/
theorem accounts_for_changes (changes : List TableChange) :
    Accounts changes (Narrow.table changes) ∧
      (Narrow.Addressable (Narrow.table changes) →
        Narrow.table changes = ofChanges changes ∧ Identifies changes (Narrow.table changes)) :=
  ⟨accounts_table changes, fun few => ⟨Narrow.table_eq few, identifies_table few⟩⟩

/-- Two methods and the wrapper around the first. The second has no parameters and the last target
    is unknown, so neither has a wrapper. -/
def wrappedOnce : List TableChange :=
  [.addClass "q.A",
    .addMethod ⟨"f", some 0, [⟨some "self", .object, false⟩, ⟨some "x", .int, false⟩], .regular⟩,
    .addMethod ⟨"g", none, [], .regular⟩, .addWrapper 0, .addWrapper 1, .addLocalClass "B",
    .addWrapper 7]

theorem wrappedOnce_accounted :
    Narrow.Addressable (Narrow.table wrappedOnce) ∧
      issued Narrow.classId? .empty wrappedOnce = [0, 1] ∧
      issued Narrow.methodId? .empty wrappedOnce = [0, 1, 2] ∧
      (Narrow.table wrappedOnce).methodsNamed "f" = [0, 2] ∧
      (Narrow.table (wrappedOnce ++ [.addWrapper 2])).method? 2 =
        some ⟨"f", none, [⟨some "x", .int, false⟩], .wrapper 0⟩ := by
  have few : Narrow.Addressable (Narrow.table wrappedOnce) := ⟨by decide +kernel, by decide +kernel⟩
  obtain ⟨account, identifies⟩ := accounts_for_changes wrappedOnce
  obtain ⟨-, identifies⟩ := identifies few
  exact ⟨few, identifies.classIds, identifies.methodIds, by decide +kernel,
    (account.kept [.addWrapper 2]).methods 2 _ rfl⟩

end Table

end ParameterHints
