import ParameterHints.Proofs.Call.Resolution
import ParameterHints.Proofs.Declaration.Lookup

/-! # Qualified calls

A qualifier that finds a class keeps the call to the methods of that class. One that finds none
restricts nothing, and a simple name that several classes share finds none of them: such a call may
mean a method of any class, just as behind a variable.
-/

namespace ParameterHints

/-- The callee at a place has a qualifier, and that spells a path. -/
def Arena.QualifiedWith (a : Arena) (callee : NodeRef) (path : String) : Prop :=
  ∃ qualifier named, a.referenceAt? callee = some ⟨some qualifier, named⟩ ∧
    a.Spells (some qualifier) path

namespace Table

variable {t : Table} {a : Arena} {c : Call} {name path : String} {r : NodeRef} {id : MethodId}
  {owner : ClassId}

/-- A method of a name whose parameters take the arguments of a call, whatever its class is. -/
def Suits (t : Table) (a : Arena) (c : Call) (name : String) (id : MethodId) : Prop :=
  ∃ m, t.method? id = some m ∧ m.name = name ∧ c.Fits a m.parameters

theorem qualifiedBy_iff (qualified : a.QualifiedWith c.callee path) :
    t.QualifiedBy a c.callee owner ↔ t.findClass? path = some owner := by
  obtain ⟨qualifier, named, here, spelled⟩ := qualified
  constructor
  · rintro ⟨qualifier', named', path', here', spelled', found⟩
    rw [here] at here'
    cases here'
    have known := Arena.path?_iff_spells.mpr spelled
    rw [Arena.path?_iff_spells.mpr spelled'] at known
    cases known
    exact found
  · exact fun found => ⟨qualifier, named, path, here, spelled, found⟩

/-- What a call means is a method of the class that its qualifier finds. -/
theorem owned_of_resolve? (indexed : t.Indexed) (call : a.callAt? r = some c)
    (qualified : a.QualifiedWith c.callee path) (found : t.findClass? path = some owner)
    (resolved : t.resolve? a r = some id) :
    ∃ m, t.method? id = some m ∧ m.containingClass = some owner := by
  obtain ⟨c', name, calls, ⟨m, known, applies⟩, -⟩ :=
    (resolve?_eq_some_iff_unique indexed).mp resolved
  obtain rfl : c = c' := Option.some_inj.mp (call.symm.trans calls.1)
  exact ⟨m, known, applies.owned owner ((qualifiedBy_iff qualified).mpr found)⟩

/-- A call whose qualifier finds no class may mean any method that suits it. -/
theorem mayMean_iff_suits (qualified : a.QualifiedWith c.callee path)
    (missing : t.findClass? path = none) : t.MayMean a c name id ↔ t.Suits a c name id := by
  constructor
  · rintro ⟨m, known, named, -, fits⟩
    exact ⟨m, known, named, fits⟩
  · rintro ⟨m, known, named, fits⟩
    refine ⟨m, known, named, fun owner by_owner => ?_, fits⟩
    rw [(qualifiedBy_iff qualified).mp by_owner] at missing
    cases missing

/-- A call with a qualifier that classes go by means methods of one such class only, unless the
    qualifier is ambiguous. If it is, the qualifier counts for nothing: the call means the one method
    of the whole table that suits it. -/
theorem qualifier_keeps_to_class (changes : List TableChange) (a : Arena) (r : NodeRef) (c : Call)
    (path : String) (call : a.callAt? r = some c) (qualified : a.QualifiedWith c.callee path) :
    let t := ofChanges changes
    ((∃ owner, t.GoesBy path owner) → ¬ t.Ambiguous path → ∃ owner, t.GoesBy path owner ∧
      ∀ id, t.resolve? a r = some id →
        ∃ m, t.method? id = some m ∧ m.containingClass = some owner) ∧
    (t.Ambiguous path → ∀ id, t.resolve? a r = some id ↔
      ∃ name, Calls a r c name ∧ t.Suits a c name id ∧
        ∀ other, t.Suits a c name other → other = id) := by
  intro t
  have indexed := indexed_ofChanges changes
  constructor
  · rintro ⟨known, goes⟩ clear
    obtain ⟨owner, found⟩ := exists_findClass? goes clear
    exact ⟨owner, goesBy_of_findClass? found, fun id resolved =>
      owned_of_resolve? indexed call qualified found resolved⟩
  · intro ambiguous id
    have missing := findClass?_of_ambiguous ambiguous
    have suits : ∀ name id, t.MayMean a c name id ↔ t.Suits a c name id := fun name id =>
      mayMean_iff_suits qualified missing
    rw [resolve?_eq_some_iff_unique indexed]
    constructor
    · rintro ⟨c', name, calls, may, only⟩
      obtain rfl : c = c' := Option.some_inj.mp (call.symm.trans calls.1)
      exact ⟨name, calls, (suits name id).mp may,
        fun other also => only other ((suits name other).mpr also)⟩
    · rintro ⟨name, calls, may, only⟩
      exact ⟨c, name, calls, (suits name id).mpr may,
        fun other also => only other ((suits name other).mp also)⟩

/-- Of the overloads a call through the qualified name of a class means the one of that class. -/
theorem overloads_keep_to_class :
    let a := (SyntaxTree.ofItems [.statement (.call "q.A.f" [.number "1"])]).arena
    let c : Call := ⟨some 5, [some 6], []⟩
    let t := ofChanges overloads
    a.Acyclic ∧ a.callAt? (some 7) = some c ∧ a.QualifiedWith c.callee "q.A" ∧
      t.resolve? a (some 7) = some 0 ∧ t.GoesBy "q.A" 0 ∧ ¬ t.Ambiguous "q.A" ∧
      ∃ owner, t.GoesBy "q.A" owner ∧ ∀ id, t.resolve? a (some 7) = some id →
        ∃ m, t.method? id = some m ∧ m.containingClass = some owner := by
  intro a c t
  have acyclic : a.Acyclic := (SyntaxTree.wellFormed_ofItems _ rfl).acyclic
  have call : a.callAt? (some 7) = some c := by decide +kernel
  have spelled : a.Spells (some 3) "q.A" :=
    Arena.path?_iff_spells.mp (by decide +kernel)
  have qualified : a.QualifiedWith c.callee "q.A" := ⟨3, some 4, by decide +kernel, spelled⟩
  have owner : t.QualifiedAs "q.A" 0 := ⟨_, rfl, rfl⟩
  have clear : ¬ t.Ambiguous "q.A" := fun shared => shared.unqualified 0 owner
  exact ⟨acyclic, call, qualified, by decide +kernel, .inl owner, clear,
    (qualifier_keeps_to_class overloads a (some 7) c "q.A" call qualified).1
      ⟨0, .inl owner⟩ clear⟩

/-- Two classes with one simple name, and a third that has the only method. -/
def sharedName : List TableChange :=
  [.addClass "a.Foo", .addClass "b.Foo", .addClass "c.Baz",
    .addMethod ⟨"run", some 2, [⟨some "x", .object, false⟩], .regular⟩]

/-- Behind the simple name that two classes share, a call means a method of the third. -/
theorem shared_name_restricts_nothing :
    let a := (SyntaxTree.ofItems [.statement (.call "Foo.run" [.number "1"])]).arena
    let c : Call := ⟨some 3, [some 4], []⟩
    let t := ofChanges sharedName
    a.Acyclic ∧ a.callAt? (some 5) = some c ∧ a.QualifiedWith c.callee "Foo" ∧
      t.GoesBy "Foo" 0 ∧ t.GoesBy "Foo" 1 ∧ t.resolve? a (some 5) = some 0 ∧
      ¬ ∃ m owner, t.method? 0 = some m ∧ m.containingClass = some owner ∧
        t.GoesBy "Foo" owner := by
  intro a c t
  have acyclic : a.Acyclic := (SyntaxTree.wellFormed_ofItems _ rfl).acyclic
  have spelled : a.Spells (some 1) "Foo" :=
    Arena.path?_iff_spells.mp (by decide +kernel)
  have baz : t.class? 2 = some ⟨"Baz", some "c.Baz"⟩ := by decide +kernel
  have unrelated : ¬ t.GoesBy "Foo" 2 := by
    rintro (⟨decl, known, named⟩ | ⟨decl, known, named⟩)
    · obtain rfl := Option.some_inj.mp (baz.symm.trans known)
      simp at named
    · obtain rfl := Option.some_inj.mp (baz.symm.trans known)
      simp at named
  refine ⟨acyclic, by decide +kernel, ⟨1, some 2, by decide +kernel, spelled⟩,
    .inr ⟨_, rfl, by decide +kernel⟩, .inr ⟨_, rfl, by decide +kernel⟩, by decide +kernel, ?_⟩
  rintro ⟨m, owner, known, contained, goes⟩
  obtain rfl : _ = m := Option.some_inj.mp known
  obtain rfl : 2 = owner := Option.some_inj.mp contained
  exact unrelated goes

end Table

end ParameterHints
