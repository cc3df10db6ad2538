import ParameterHints.Call.Host
import ParameterHints.Proofs.Declaration.Index
import ParameterHints.Proofs.Syntax.Construction
import ParameterHints.Proofs.Syntax.Paths

/-! # Resolution of calls

A call means the one method of the whole table that applies to it. The table is asked by name and
stops at a second candidate; that this makes no difference rests on the index of the names.
-/

namespace ParameterHints

/-- All arguments of a call can be passed to the parameters: they can be bound, and each is a named
    argument or of a fitting type. -/
def Call.Fits (c : Call) (a : Arena) (parameters : List Parameter) : Prop :=
  ∃ bindings, bindArguments parameters a c = some bindings ∧
    ∀ p b, (p, b) ∈ parameters.zip bindings → ∀ argument ∈ b.arguments,
      a.isNamedArgument argument ∨ p.type.accepts a argument

theorem bindingsFit_iff {parameters : List Parameter} {bindings : List Binding} {a : Arena} :
    bindingsFit parameters bindings a ↔
      ∀ p b, (p, b) ∈ parameters.zip bindings → ∀ argument ∈ b.arguments,
        a.isNamedArgument argument ∨ p.type.accepts a argument := by
  simp [bindingsFit, Parameter.admits]

theorem Method.isApplicable_iff {m : Method} {a : Arena} {c : Call} :
    m.isApplicable a c ↔ c.Fits a m.parameters := by
  rw [isApplicable, Option.any_eq_true]
  exact exists_congr fun bindings => and_congr Iff.rfl bindingsFit_iff

namespace Table

variable {t : Table} {a : Arena} {c : Call} {name : String} {r : NodeRef} {id : MethodId}

/-- The callee at a place has a qualifier, and the path of the qualifier names a class. -/
def QualifiedBy (t : Table) (a : Arena) (callee : NodeRef) (owner : ClassId) : Prop :=
  ∃ qualifier named path, a.referenceAt? callee = some ⟨some qualifier, named⟩ ∧
    a.Spells (some qualifier) path ∧ t.findClass? path = some owner

/-- A method of a name applies to a call. If the call says whose method it wants, the method has to
    be of that class. -/
structure Applies (t : Table) (a : Arena) (c : Call) (name : String) (m : Method) : Prop where
  named : m.name = name
  owned : ∀ owner, t.QualifiedBy a c.callee owner → m.containingClass = some owner
  fits : c.Fits a m.parameters

/-- The id of a method of the table that applies to a call. -/
def MayMean (t : Table) (a : Arena) (c : Call) (name : String) (id : MethodId) : Prop :=
  ∃ m, t.method? id = some m ∧ t.Applies a c name m

theorem owner?_eq_some_iff {owner : ClassId} :
    t.owner? a c = some owner ↔ t.QualifiedBy a c.callee owner := by
  constructor
  · intro h
    obtain ⟨⟨qualifier, named⟩, here, h⟩ := Option.bind_eq_some_iff.mp h
    obtain ⟨place, qualified, h⟩ := Option.bind_eq_some_iff.mp h
    obtain ⟨path, spelled, found⟩ := Option.bind_eq_some_iff.mp h
    obtain rfl : qualifier = some place := qualified
    exact ⟨place, named, path, here, Arena.path?_iff_spells.mp spelled, found⟩
  · rintro ⟨qualifier, named, path, here, spelled, found⟩
    simp [owner?, here, Arena.path?_iff_spells.mpr spelled, found]

theorem isOwnedBy_iff {m : Method} {owner : Option ClassId} :
    m.isOwnedBy owner ↔ ∀ id, owner = some id → m.containingClass = some id := by
  cases owner <;> simp [Method.isOwnedBy]

/-- The candidates among the methods of a name are those among all methods. -/
theorem mem_candidates (indexed : t.Indexed) :
    id ∈ t.candidates a c name ↔ t.MayMean a c name id := by
  rw [candidates, List.mem_filter, indexed.complete, isCandidate, Option.any_eq_true]
  constructor
  · rintro ⟨⟨m, found, named⟩, m', found', candidate⟩
    rw [found] at found'
    cases found'
    obtain ⟨owned, applicable⟩ := Bool.and_eq_true _ _ |>.mp candidate
    refine ⟨m, found, named, ?_, Method.isApplicable_iff.mp applicable⟩
    exact fun owner qualified =>
      isOwnedBy_iff.mp owned owner (owner?_eq_some_iff.mpr qualified)
  · rintro ⟨m, found, applies⟩
    refine ⟨⟨m, found, applies.named⟩, m, found, Bool.and_eq_true _ _ |>.mpr ⟨?_, ?_⟩⟩
    · exact isOwnedBy_iff.mpr fun owner known =>
        applies.owned owner (owner?_eq_some_iff.mp known)
    · exact Method.isApplicable_iff.mpr applies.fits

/-- Every candidate is a method of the table. -/
theorem method_of_candidate (h : id ∈ t.candidates a c name) : ∃ m, t.method? id = some m := by
  have candidate := (List.mem_filter.mp h).2
  exact Option.isSome_iff_exists.mp (Option.isSome_of_any candidate)

theorem candidates_nodup (indexed : t.Indexed) (a : Arena) (c : Call) (name : String) :
    (t.candidates a c name).Nodup :=
  ((indexed.ascending name).imp Nat.ne_of_lt).filter _

/-- A call resolves to a method when that is its only candidate. -/
theorem resolve?_eq_some_iff :
    t.resolve? a r = some id ↔ ∃ c name, a.callAt? r = some c ∧
      a.referenceName? c.callee = some name ∧ t.candidates a c name = [id] := by
  constructor
  · intro h
    obtain ⟨c, call, h⟩ := Option.bind_eq_some_iff.mp h
    obtain ⟨name, named, h⟩ := Option.bind_eq_some_iff.mp h
    refine ⟨c, name, call, named, ?_⟩
    split at h
    · next only =>
        cases h
        exact only
    · cases h
  · rintro ⟨c, name, call, named, only⟩
    simp [resolve?, call, named, only]

/-- The arguments of a call can be passed to each of its candidates. -/
theorem fits_of_candidate {m : Method} (h : id ∈ t.candidates a c name)
    (found : t.method? id = some m) : c.Fits a m.parameters := by
  have candidate := (List.mem_filter.mp h).2
  rw [isCandidate, found, Option.any_some, Bool.and_eq_true] at candidate
  exact Method.isApplicable_iff.mp candidate.2

/-- The arguments of a call can be passed to the method that it resolves to. -/
theorem fits_of_resolve? {m : Method} (h : t.resolve? a r = some id) (call : a.callAt? r = some c)
    (found : t.method? id = some m) : c.Fits a m.parameters := by
  obtain ⟨c', name, call', -, only⟩ := resolve?_eq_some_iff.mp h
  rw [call] at call'
  cases call'
  have candidate : id ∈ t.candidates a c name := by simp [only]
  exact fits_of_candidate candidate found

/-- The only candidate is the only method that a call may mean. -/
theorem candidates_eq_singleton_iff (indexed : t.Indexed) :
    t.candidates a c name = [id] ↔
      t.MayMean a c name id ∧ ∀ other, t.MayMean a c name other → other = id := by
  rw [ids_eq_singleton_iff (candidates_nodup indexed a c name)]
  simp only [mem_candidates indexed]

/-- The node at a place is a call of a name: its callee is a reference with that identifier. -/
def Calls (a : Arena) (r : NodeRef) (c : Call) (name : String) : Prop :=
  a.callAt? r = some c ∧ ∃ reference, a.referenceAt? c.callee = some reference ∧
    a.identifierAt? reference.name = some name

theorem calls_iff :
    Calls a r c name ↔ a.callAt? r = some c ∧ a.referenceName? c.callee = some name :=
  and_congr_right' Option.bind_eq_some_iff.symm

theorem calls_unique {c' : Call} {name' : String} (h : Calls a r c name)
    (h' : Calls a r c' name') : c' = c ∧ name' = name := by
  obtain ⟨call, named⟩ := calls_iff.mp h
  obtain ⟨call', named'⟩ := calls_iff.mp h'
  rw [call] at call'
  cases call'
  rw [named] at named'
  cases named'
  exact ⟨rfl, rfl⟩

theorem exists_calls (h : t.resolve? a r = some id) : ∃ c name, Calls a r c name := by
  obtain ⟨c, name, call, named, -⟩ := resolve?_eq_some_iff.mp h
  exact ⟨c, name, calls_iff.mpr ⟨call, named⟩⟩

/-- What is no call of a name means nothing in any table. -/
theorem resolve?_of_no_call (h : ¬ ∃ c name, Calls a r c name) : t.resolve? a r = none := by
  rw [Option.eq_none_iff_forall_ne_some]
  exact fun id resolved => h (exists_calls resolved)

/-- A call of a name means a method exactly if that is the only candidate. -/
theorem resolve?_iff_of_calls (h : Calls a r c name) :
    t.resolve? a r = some id ↔ t.candidates a c name = [id] := by
  obtain ⟨call, named⟩ := calls_iff.mp h
  rw [resolve?_eq_some_iff]
  constructor
  · rintro ⟨c', name', call', named', only⟩
    obtain ⟨rfl, rfl⟩ := calls_unique h (calls_iff.mpr ⟨call', named'⟩)
    exact only
  · exact fun only => ⟨c, name, call, named, only⟩

theorem resolve?_eq_some_iff_unique (indexed : t.Indexed) :
    t.resolve? a r = some id ↔ ∃ c name, Calls a r c name ∧ t.MayMean a c name id ∧
      ∀ other, t.MayMean a c name other → other = id := by
  rw [resolve?_eq_some_iff]
  refine exists_congr fun c => exists_congr fun name => ?_
  rw [candidates_eq_singleton_iff indexed, Calls, and_assoc]
  exact and_congr_right' (and_congr_left' Option.bind_eq_some_iff)

/-- Over a table that was made by changes, a call resolves to a method exactly if that is the one
    method of the whole table that it may mean. It resolves to none if there is no such method or
    more than one. -/
theorem resolves_iff_unique (changes : List TableChange) (a : Arena) (r : NodeRef) :
    (∀ id, (ofChanges changes).resolve? a r = some id ↔
      ∃ c name, Calls a r c name ∧ (ofChanges changes).MayMean a c name id ∧
        ∀ other, (ofChanges changes).MayMean a c name other → other = id) ∧
    ((ofChanges changes).resolve? a r = none ↔
      ∀ c name, Calls a r c name → (∀ id, ¬ (ofChanges changes).MayMean a c name id) ∨
        ∃ id other, id ≠ other ∧ (ofChanges changes).MayMean a c name id ∧
          (ofChanges changes).MayMean a c name other) := by
  have indexed := indexed_ofChanges changes
  refine ⟨fun id => resolve?_eq_some_iff_unique indexed, ?_⟩
  rw [Option.eq_none_iff_forall_ne_some]
  constructor
  · intro unresolved c name calls
    by_cases some : ∃ id, (ofChanges changes).MayMean a c name id
    · obtain ⟨id, may⟩ := some
      refine .inr ?_
      by_contra alone
      push Not at alone
      refine unresolved id ((resolve?_eq_some_iff_unique indexed).mpr
        ⟨c, name, calls, may, fun other also => ?_⟩)
      by_contra different
      exact alone id other (Ne.symm different) may also
    · exact .inl fun id may => some ⟨id, may⟩
  · intro none_or_several id resolved
    obtain ⟨c, name, calls, may, same⟩ := (resolve?_eq_some_iff_unique indexed).mp resolved
    rcases none_or_several c name calls with none | ⟨first, second, different, mayFirst, maySecond⟩
    · exact none id may
    · exact different ((same first mayFirst).trans (same second maySecond).symm)

/-- Methods of one name in two classes, one for a text, and a wrapper around that. -/
def overloads : List TableChange :=
  [.addClass "q.A", .addLocalClass "B",
    .addMethod ⟨"f", some 0, [⟨some "x", .int, false⟩], .regular⟩,
    .addMethod ⟨"f", some 1, [⟨some "x", .int, false⟩], .regular⟩,
    .addMethod ⟨"f", some 0, [⟨some "x", .string, false⟩], .regular⟩, .addWrapper 2]

/-- Of the overloads a call through the name of a class means one. -/
theorem overloads_resolve :
    let a := (SyntaxTree.ofItems [.statement (.call "q.A.f" [.number "1"])]).arena
    a.Acyclic ∧ ∃ c name, Calls a (some 7) c name ∧ (ofChanges overloads).MayMean a c name 0 ∧
      ∀ other, (ofChanges overloads).MayMean a c name other → other = 0 := by
  intro a
  have acyclic : a.Acyclic := (SyntaxTree.wellFormed_ofItems _ rfl).acyclic
  exact ⟨acyclic, ((resolves_iff_unique overloads a (some 7)).1 0).mp (by decide +kernel)⟩

end Table

end ParameterHints
