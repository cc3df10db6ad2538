import ParameterHints.Declaration.Basic
import ParameterHints.Text.Segments

/-! # Declaration tables

A table numbers classes and methods in the order in which they are added and keeps the methods of
each name at hand.
-/

namespace ParameterHints

/-- The methods of each name, in the order in which they were added. -/
abbrev NameIndex := List (String × List MethodId)

namespace NameIndex

def ids (index : NameIndex) (name : String) : List MethodId := (index.lookup name).getD []

def insert (name : String) (id : MethodId) : NameIndex → NameIndex
  | [] => [(name, [id])]
  | (key, ids) :: rest =>
      if key = name then (key, ids ++ [id]) :: rest else (key, ids) :: insert name id rest

theorem ids_nil (name : String) : ids [] name = [] := rfl

theorem ids_cons (key name : String) (listed : List MethodId) (rest : NameIndex) :
    ids ((key, listed) :: rest) name = if name = key then listed else ids rest name := by
  by_cases h : name = key
  · simp [ids, h]
  · have unequal : (name == key) = false := by simpa using h
    simp [ids, List.lookup_cons, unequal, h]

/-- Entering a method changes the methods of its name only, and puts it behind them. -/
theorem ids_insert (index : NameIndex) (name other : String) (id : MethodId) :
    ids (insert name id index) other =
      if other = name then index.ids name ++ [id] else index.ids other := by
  induction index with
  | nil => simp [insert, ids_cons, ids_nil]
  | cons entry rest ih =>
      obtain ⟨key, listed⟩ := entry
      by_cases same : key = name
      · subst same
        by_cases h : other = key <;> simp [insert, ids_cons, h]
      · by_cases h : other = name
        · have different : ¬ name = key := fun eq => same eq.symm
          subst h
          simp [insert, ids_cons, same, different, ih]
        · simp [insert, ids_cons, same, h, ih]

end NameIndex

/-- Which classes met so far have a simple name. -/
inductive SimpleMatch where
  | absent
  | unique (id : ClassId)
  | ambiguous
  deriving DecidableEq

namespace SimpleMatch

def found (id : ClassId) : SimpleMatch → SimpleMatch
  | absent => unique id
  | unique _ | ambiguous => ambiguous

def id? : SimpleMatch → Option ClassId
  | unique id => some id
  | absent | ambiguous => none

end SimpleMatch

/-- Classes and methods with an index of the methods by name. -/
structure Table where
  classes : Array ClassDecl
  methods : Array Method
  byName : NameIndex

namespace Table

def empty : Table := ⟨#[], #[], []⟩

def class? (t : Table) (id : ClassId) : Option ClassDecl := t.classes[id]?

def method? (t : Table) (id : MethodId) : Option Method := t.methods[id]?

/-- The methods with a name, in the order in which they were added. -/
def methodsNamed (t : Table) (name : String) : List MethodId := t.byName.ids name

def nextClass (t : Table) : ClassId := t.classes.size

def nextMethod (t : Table) : MethodId := t.methods.size

/-- Add a class by its qualified name. Its simple name is the part behind the last dot. -/
def addClass (t : Table) (qualifiedName : String) : Table :=
  let name := String.ofList (Text.lastSegment '.' qualifiedName.toList)
  { t with classes := t.classes.push ⟨name, some qualifiedName⟩ }

/-- Add a class that has no qualified name. -/
def addLocalClass (t : Table) (name : String) : Table :=
  { t with classes := t.classes.push ⟨name, none⟩ }

def addMethod (t : Table) (m : Method) : Table :=
  { t with methods := t.methods.push m, byName := t.byName.insert m.name t.nextMethod }

theorem methodsNamed_addMethod (t : Table) (m : Method) (name : String) :
    (t.addMethod m).methodsNamed name =
      if name = m.name then t.methodsNamed name ++ [t.nextMethod] else t.methodsNamed name := by
  by_cases h : name = m.name <;> simp [methodsNamed, addMethod, NameIndex.ids_insert, h]

/-- The wrapper around a static method: it takes the receiver from in front of the dot, so it has
    one parameter less, and no class of its own. A method that is not there, or that has no
    parameters, has no wrapper. -/
def wrapper? (t : Table) (target : MethodId) : Option Method :=
  match t.method? target with
  | some ⟨name, _, _ :: parameters, _⟩ => some ⟨name, none, parameters, .wrapper target⟩
  | _ => none

/-- Add the wrapper around a static method, if it has one. -/
def addWrapper? (t : Table) (target : MethodId) : Option Table :=
  (t.wrapper? target).map t.addMethod

/-- The class of a path among classes that are numbered from `id`, given the classes before them
    whose simple name it is. A qualified name ends the search. -/
def findClassFrom (path : String) (id : ClassId) (simple : SimpleMatch) :
    List ClassDecl → Option ClassId
  | [] => simple.id?
  | c :: rest =>
      if c.qualifiedName = some path then some id
      else findClassFrom path (id + 1) (if c.name = path then simple.found id else simple) rest

/-- The class of a path: the first with that qualified name, or else the only one with that simple
    name. -/
def findClass? (t : Table) (path : String) : Option ClassId :=
  findClassFrom path 0 .absent t.classes.toList

end Table

/-- A change of a table. -/
inductive TableChange where
  | addClass (qualifiedName : String)
  | addLocalClass (name : String)
  | addMethod (m : Method)
  | addWrapper (target : MethodId)

namespace TableChange

/-- The table after a change; a wrapper that cannot be made changes nothing. -/
def apply (t : Table) : TableChange → Table
  | addClass qualifiedName => t.addClass qualifiedName
  | addLocalClass name => t.addLocalClass name
  | addMethod m => t.addMethod m
  | addWrapper target => (t.addWrapper? target).getD t

end TableChange

/-- The table that a sequence of changes makes of the empty one. -/
def Table.ofChanges (changes : List TableChange) : Table := changes.foldl TableChange.apply .empty

end ParameterHints
