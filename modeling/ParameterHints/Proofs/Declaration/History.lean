import Mathlib.Data.List.Induction
import ParameterHints.Proofs.Declaration.Index
import ParameterHints.Proofs.Text.LastDot

/-! # The history of a table

A table only grows, so classes and methods keep their ids. Every method of a table that was made by
changes was added by one of them: as it was declared, or as the wrapper around a method that was
there already and still is.
-/

namespace ParameterHints

namespace TableChange

/-- The id that a change gives to a class. -/
def classId? (t : Table) : TableChange → Option ClassId
  | addClass _ | addLocalClass _ => some t.nextClass
  | addMethod _ | addWrapper _ => none

/-- The id that a change gives to a method. A wrapper that cannot be made gets none. -/
def methodId? (t : Table) : TableChange → Option MethodId
  | addClass _ | addLocalClass _ => none
  | addMethod _ => some t.nextMethod
  | addWrapper target => (t.wrapper? target).map fun _ => t.nextMethod

/-- A change adds a class. The simple name of one with a qualified name is behind the last dot. -/
inductive Declares : TableChange → ClassDecl → Prop where
  | qualified {path front? name} : Text.CutAtLastDot path front? name →
      Declares (addClass path) ⟨name, some path⟩
  | unqualified (name : String) : Declares (addLocalClass name) ⟨name, none⟩

end TableChange

namespace Table

open TableChange (classId? methodId?)

variable {t u v : Table} {change : TableChange} {changes : List TableChange} {id target : MethodId}
  {m s : Method}

theorem ofChanges_concat (changes : List TableChange) (change : TableChange) :
    ofChanges (changes ++ [change]) = change.apply (ofChanges changes) := by
  rw [ofChanges, List.foldl_append]
  rfl

/-- A wrapper is made around a method with a parameter, and lacks that and the class. -/
theorem wrapper?_eq_some_iff :
    t.wrapper? target = some m ↔ ∃ s receiver rest, t.method? target = some s ∧
      s.parameters = receiver :: rest ∧ m = ⟨s.name, none, rest, .wrapper target⟩ := by
  constructor
  · intro h
    unfold wrapper? at h
    split at h
    · next name owner receiver rest kind found =>
        cases h
        exact ⟨_, receiver, rest, found, rfl, rfl⟩
    · cases h
  · rintro ⟨⟨name, owner, parameters, kind⟩, receiver, rest, found, rfl, rfl⟩
    simp [wrapper?, found]

theorem wrapper?_eq_none_iff :
    t.wrapper? target = none ↔ ∀ s, t.method? target = some s → s.parameters = [] := by
  rw [Option.eq_none_iff_forall_ne_some]
  constructor
  · intro unmade s found
    by_contra some
    obtain ⟨receiver, rest, parameters⟩ := List.exists_cons_of_ne_nil some
    exact unmade _ (wrapper?_eq_some_iff.mpr ⟨s, receiver, rest, found, parameters, rfl⟩)
  · intro bare w made
    obtain ⟨s, receiver, rest, found, parameters, -⟩ := wrapper?_eq_some_iff.mp made
    rw [bare s found] at parameters
    cases parameters

/-- A change leaves the methods alone, or it adds one: a declared one or a wrapper. -/
theorem apply_cases (t : Table) (change : TableChange) :
    (∀ id, (change.apply t).method? id = t.method? id) ∨
      ∃ m, change.apply t = t.addMethod m ∧ (change = .addMethod m ∨
        ∃ target, change = .addWrapper target ∧ t.wrapper? target = some m) := by
  cases change with
  | addClass qualifiedName => exact .inl fun _ => rfl
  | addLocalClass name => exact .inl fun _ => rfl
  | addMethod m => exact .inr ⟨m, rfl, .inl rfl⟩
  | addWrapper target =>
      cases made : t.wrapper? target with
      | none => exact .inl fun _ => by rw [apply_addWrapper_of_none made]
      | some m =>
          exact .inr ⟨m, apply_addWrapper_of_some made, .inr ⟨target, rfl, made⟩⟩

theorem method?_addMethod_of_some (h : t.method? id = some m) (added : Method) :
    (t.addMethod added).method? id = some m := by
  rw [method?_addMethod, if_neg (Nat.ne_of_lt (id_lt_nextMethod h))]
  exact h

/-- No change takes a method away or alters it. -/
theorem method?_apply (h : t.method? id = some m) (change : TableChange) :
    (change.apply t).method? id = some m := by
  rcases apply_cases t change with same | ⟨added, changed, -⟩
  · rw [same, h]
  · rw [changed]
    exact method?_addMethod_of_some h added

/-- A change leaves the classes alone, or it adds one behind them. -/
theorem classes_apply (t : Table) (change : TableChange) :
    classId? t change = none ∧ (change.apply t).classes = t.classes ∨
      ∃ c, change.Declares c ∧ classId? t change = some t.nextClass ∧
        (change.apply t).classes = t.classes.push c := by
  cases change with
  | addClass path =>
      obtain ⟨front?, cut⟩ := Text.CutAtLastDot.exists_front path
      exact .inr ⟨_, .qualified cut, rfl, rfl⟩
  | addLocalClass name => exact .inr ⟨_, .unqualified name, rfl, rfl⟩
  | addMethod m => exact .inl ⟨rfl, rfl⟩
  | addWrapper target =>
      cases made : t.wrapper? target with
      | none => exact .inl ⟨rfl, by rw [apply_addWrapper_of_none made]⟩
      | some w => exact .inl ⟨rfl, by rw [apply_addWrapper_of_some made]; rfl⟩

theorem classId?_next (t : Table) (change : TableChange) :
    List.range t.nextClass ++ (classId? t change).toList =
      List.range (change.apply t).nextClass := by
  rw [nextClass, nextClass]
  rcases classes_apply t change with ⟨none, same⟩ | ⟨c, -, next, added⟩
  · rw [none, same, Option.toList_none, List.append_nil]
  · rw [next, added, Array.size_push, List.range_succ, Option.toList_some, nextClass]

theorem methodId?_next (t : Table) (change : TableChange) :
    List.range t.nextMethod ++ (methodId? t change).toList =
      List.range (change.apply t).nextMethod := by
  have entered (m : Method) : List.range t.nextMethod ++ [t.nextMethod] =
      List.range (t.addMethod m).nextMethod := by
    rw [nextMethod_addMethod, List.range_succ]
  cases change with
  | addClass qualifiedName => exact List.append_nil _
  | addLocalClass name => exact List.append_nil _
  | addMethod m => exact entered m
  | addWrapper target =>
      cases made : t.wrapper? target with
      | none => simp [methodId?, made, apply_addWrapper_of_none made]
      | some w => simpa [methodId?, made, apply_addWrapper_of_some made] using entered w

theorem nextMethod_le_apply (t : Table) (change : TableChange) :
    t.nextMethod ≤ (change.apply t).nextMethod := by
  have counted := congrArg List.length (methodId?_next t change)
  rw [List.length_append, List.length_range, List.length_range] at counted
  exact Nat.le.intro counted

/-- What one table has under an id, another has under the same id. -/
structure KeptIn (t u : Table) : Prop where
  classes : ∀ id c, t.class? id = some c → u.class? id = some c
  methods : ∀ id m, t.method? id = some m → u.method? id = some m

namespace KeptIn

theorem refl (t : Table) : t.KeptIn t := ⟨fun _ _ h => h, fun _ _ h => h⟩

theorem trans (first : t.KeptIn u) (second : u.KeptIn v) : t.KeptIn v where
  classes id c known := second.classes id c (first.classes id c known)
  methods id m found := second.methods id m (first.methods id m found)

end KeptIn

theorem class?_of_push {c : ClassDecl} (added : u.classes = t.classes.push c) (id : ClassId) :
    u.class? id = if id = t.nextClass then some c else t.class? id := by
  rw [class?, added]
  exact Array.getElem?_push

theorem id_lt_nextClass {id : ClassId} {c : ClassDecl} (h : t.class? id = some c) :
    id < t.nextClass :=
  (Array.getElem?_eq_some_iff.mp h).1

/-- No change takes a class away or alters it. -/
theorem class?_apply {id : ClassId} {c : ClassDecl} (h : t.class? id = some c)
    (change : TableChange) : (change.apply t).class? id = some c := by
  rcases classes_apply t change with ⟨-, same⟩ | ⟨d, -, -, added⟩
  · rwa [class?, same]
  · rw [class?_of_push added, if_neg (Nat.ne_of_lt (id_lt_nextClass h)), h]

/-- A class is entered behind the others, and that is its number. -/
theorem classes_of_declares {c : ClassDecl} (h : change.Declares c) (t : Table) :
    classId? t change = some t.nextClass ∧ (change.apply t).classes = t.classes.push c := by
  cases h with
  | qualified cut =>
      rw [← cut.lastSegment_eq]
      exact ⟨rfl, rfl⟩
  | unqualified name => exact ⟨rfl, rfl⟩

/-- A class is under the id that it was given. -/
theorem class?_of_declares {c : ClassDecl} (h : change.Declares c) (t : Table) :
    (change.apply t).class? t.nextClass = some c := by
  rw [class?_of_push (classes_of_declares h t).2, if_pos rfl]

theorem keptIn_apply (t : Table) (change : TableChange) : t.KeptIn (change.apply t) where
  classes _ _ known := class?_apply known change
  methods _ _ found := method?_apply found change

theorem keptIn_changes (changes : List TableChange) (t : Table) :
    t.KeptIn (changes.foldl TableChange.apply t) := by
  induction changes generalizing t with
  | nil => exact .refl t
  | cons change rest ih => exact (keptIn_apply t change).trans (ih _)

theorem keptIn_later (before after : List TableChange) :
    (ofChanges before).KeptIn (ofChanges (before ++ after)) := by
  rw [ofChanges, ofChanges, List.foldl_append]
  exact keptIn_changes after _

theorem method?_later {before after : List TableChange}
    (h : (ofChanges before).method? id = some m) :
    (ofChanges (before ++ after)).method? id = some m :=
  (keptIn_later before after).methods id m h

/-- A method that changes added under an id, and the method it stands for: itself if it was
    declared, and for a wrapper the method that was wrapped. -/
inductive StandsFor (changes : List TableChange) : MethodId → Method → Method → Prop where
  | declared {before m after} : changes = before ++ .addMethod m :: after →
      StandsFor changes (ofChanges before).nextMethod m m
  | wrapped {before target s receiver rest after} :
      changes = before ++ .addWrapper target :: after →
      (ofChanges before).method? target = some s → s.parameters = receiver :: rest →
      StandsFor changes (ofChanges before).nextMethod ⟨s.name, none, rest, .wrapper target⟩ s

/-- A method wraps the one at an id, which is there: it lacks the first parameter of that, and it is
    a method of no class. -/
structure Wraps (t : Table) (w : Method) (target : MethodId) (s : Method) : Prop where
  found : t.method? target = some s
  name : w.name = s.name
  unowned : w.containingClass = none
  parameters : ∃ receiver, s.parameters = receiver :: w.parameters

namespace StandsFor

theorem later (h : StandsFor changes id m s) (change : TableChange) :
    StandsFor (changes ++ [change]) id m s := by
  cases h with
  | declared split => exact .declared (by rw [split, List.append_assoc, List.cons_append])
  | wrapped split found parameters =>
      exact .wrapped (by rw [split, List.append_assoc, List.cons_append]) found parameters

theorem itself (h : StandsFor changes id m s) (regular : m.kind = .regular) : s = m := by
  cases h with
  | declared => rfl
  | wrapped => cases regular

/-- Where only regular methods are declared, a wrapper stands for the method at its target. -/
theorem wraps (h : StandsFor changes id m s)
    (declared : ∀ m, .addMethod m ∈ changes → m.kind = .regular)
    (wrapper : m.kind = .wrapper target) : (ofChanges changes).Wraps m target s := by
  cases h with
  | declared split =>
      rw [declared m (by simp [split])] at wrapper
      cases wrapper
  | wrapped split found parameters =>
      cases wrapper
      exact ⟨split ▸ method?_later found, rfl, rfl, _, parameters⟩

end StandsFor

/-- Every method of a table has a history. -/
theorem exists_standsFor (h : (ofChanges changes).method? id = some m) :
    ∃ s, StandsFor changes id m s := by
  induction changes using List.reverseRecOn with
  | nil => simp [ofChanges, empty, method?] at h
  | append_singleton front change ih =>
      rw [ofChanges_concat] at h
      rcases apply_cases (ofChanges front) change with same | ⟨added, changed, made⟩
      · rw [same] at h
        obtain ⟨s, old⟩ := ih h
        exact ⟨s, old.later change⟩
      · rw [changed, method?_addMethod] at h
        split at h
        · next new =>
            cases h
            subst new
            rcases made with rfl | ⟨target, rfl, wrapper⟩
            · exact ⟨m, .declared rfl⟩
            · obtain ⟨s, receiver, rest, found, parameters, rfl⟩ := wrapper?_eq_some_iff.mp wrapper
              exact ⟨s, .wrapped rfl found parameters⟩
        · obtain ⟨s, old⟩ := ih h
          exact ⟨s, old.later change⟩

end Table

end ParameterHints
