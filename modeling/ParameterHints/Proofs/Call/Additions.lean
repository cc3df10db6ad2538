import Mathlib.Logic.Relation
import ParameterHints.Proofs.Call.Resolution
import ParameterHints.Proofs.Declaration.History

/-! # More methods in a table

A table that gets another method may leave a call without a meaning, or give the new method to a
call that had none. It never gives a call another one of the old methods: candidates are only added,
behind those that were there, and a call means one method only as long as it has no others.
-/

namespace ParameterHints.Table

/-- One more method in a table, under an id of its own: as it is declared, or as a wrapper around a
    method that has one. -/
inductive Adds (t : Table) : MethodId → Table → Prop where
  | method (m : Method) : Adds t t.nextMethod (t.addMethod m)
  | wrapper {target t'} : t.addWrapper? target = some t' → Adds t t.nextMethod t'

/-- A table with any number of methods more. -/
def Grows : Table → Table → Prop := Relation.ReflTransGen fun t t' => ∃ n, t.Adds n t'

variable {t t' : Table} {a : Arena} {c : Call} {name : String} {r : NodeRef} {n id : MethodId}

theorem Adds.eq_addMethod (h : t.Adds n t') : n = t.nextMethod ∧ ∃ m, t' = t.addMethod m := by
  cases h with
  | method m => exact ⟨rfl, m, rfl⟩
  | wrapper made =>
      obtain ⟨m, -, rfl⟩ := Option.map_eq_some_iff.mp made
      exact ⟨rfl, m, rfl⟩

theorem Adds.indexed (h : t.Adds n t') (indexed : t.Indexed) : t'.Indexed := by
  obtain ⟨-, m, rfl⟩ := h.eq_addMethod
  exact indexed.addMethod m

theorem Adds.new (h : t.Adds n t') : t.method? n = none := by
  obtain ⟨rfl, -⟩ := h.eq_addMethod
  exact t.method?_nextMethod

theorem Adds.method? {m : Method} (h : t.Adds n t') (found : t.method? id = some m) :
    t'.method? id = some m := by
  obtain ⟨-, added, rfl⟩ := h.eq_addMethod
  exact method?_addMethod_of_some found added

/-! ## Candidates -/

/-- An old method is a candidate as before, since the classes are the same. -/
theorem Adds.isCandidate (h : t.Adds n t') {m : Method} (found : t.method? id = some m)
    (a : Arena) (c : Call) :
    t'.isCandidate a c (t'.owner? a c) id = t.isCandidate a c (t.owner? a c) id := by
  have owner : t'.owner? a c = t.owner? a c := by
    obtain ⟨-, added, rfl⟩ := h.eq_addMethod
    rfl
  rw [Table.isCandidate, Table.isCandidate, owner, found, h.method? found]

/-- The new method is a candidate behind the old ones, or none. -/
theorem Adds.candidates (h : t.Adds n t') (indexed : t.Indexed) (a : Arena) (c : Call)
    (name : String) :
    t'.candidates a c name = t.candidates a c name ∨
      t'.candidates a c name = t.candidates a c name ++ [n] := by
  have old : (t.methodsNamed name).filter (t'.isCandidate a c (t'.owner? a c)) =
      t.candidates a c name := by
    refine List.filter_congr fun id listed => ?_
    obtain ⟨m, found, -⟩ := (indexed.complete name id).mp listed
    exact h.isCandidate found a c
  have listed : t'.methodsNamed name = t.methodsNamed name ∨
      t'.methodsNamed name = t.methodsNamed name ++ [n] := by
    obtain ⟨rfl, added, rfl⟩ := h.eq_addMethod
    rw [methodsNamed_addMethod]
    split
    · exact .inr rfl
    · exact .inl rfl
  rw [← old, Table.candidates]
  rcases listed with same | more
  · exact .inl (by rw [same])
  · rw [more, List.filter_append]
    by_cases candidate : t'.isCandidate a c (t'.owner? a c) n
    · exact .inr (by rw [List.filter_cons_of_pos candidate, List.filter_nil])
    · exact .inl (by rw [List.filter_cons_of_neg candidate, List.filter_nil, List.append_nil])

theorem Grows.method? {m : Method} (h : t.Grows t') (found : t.method? id = some m) :
    t'.method? id = some m := by
  induction h with
  | refl => exact found
  | tail _ step ih =>
      obtain ⟨n, adds⟩ := step
      exact adds.method? ih

/-- After any number of additions the old candidates come first, and the others are new. -/
theorem Grows.candidates (h : t.Grows t') (indexed : t.Indexed) (a : Arena) (c : Call)
    (name : String) :
    t'.Indexed ∧ ∃ more, t'.candidates a c name = t.candidates a c name ++ more ∧
      ∀ id ∈ more, t.method? id = none := by
  induction h with
  | refl => exact ⟨indexed, [], (List.append_nil _).symm, by simp⟩
  | tail grown step ih =>
      obtain ⟨indexed, more, split, new⟩ := ih
      obtain ⟨n, adds⟩ := step
      refine ⟨adds.indexed indexed, ?_⟩
      rcases adds.candidates indexed a c name with same | another
      · exact ⟨more, by rw [same, split], new⟩
      · refine ⟨more ++ [n], by rw [another, split, List.append_assoc], ?_⟩
        intro id member
        rcases List.mem_append.mp member with early | last
        · exact new id early
        · -- A method that the first table had would still be there.
          obtain rfl := List.mem_singleton.mp last
          rw [Option.eq_none_iff_forall_ne_some]
          intro m found
          have still := Grows.method? grown found
          rw [adds.new] at still
          cases still

/-! ## Meanings -/

/-- A table with a new method respects what a call means without it. The meaning stays, or it is
    lost, or it is the new method; it is the new one only where no old one applied, and it is lost
    only where the new one applies. -/
structure Respects (t t' : Table) (n : MethodId) (a : Arena) (r : NodeRef) : Prop where
  outcome : t'.resolve? a r = t.resolve? a r ∨ t'.resolve? a r = none ∨ t'.resolve? a r = some n
  found : t'.resolve? a r = some n → ∀ c name, Calls a r c name → ∀ id, ¬ t.MayMean a c name id
  lost : (t.resolve? a r).isSome → t'.resolve? a r = none →
    ∃ c name, Calls a r c name ∧ t'.MayMean a c name n

theorem eq_nil_of_concat_eq_singleton {ids : List MethodId} (h : ids ++ [n] = [id]) :
    ids = [] ∧ id = n := by
  cases ids with
  | nil => exact ⟨rfl, (List.singleton_inj.mp h).symm⟩
  | cons first rest => simp at h

theorem Adds.outcome (h : t.Adds n t') (indexed : t.Indexed) (a : Arena) (r : NodeRef) :
    t'.resolve? a r = t.resolve? a r ∨ t'.resolve? a r = none ∨ t'.resolve? a r = some n := by
  by_cases calls : ∃ c name, Calls a r c name
  · obtain ⟨c, name, calls⟩ := calls
    rcases h.candidates indexed a c name with same | more
    · refine .inl (Option.ext fun id => ?_)
      rw [resolve?_iff_of_calls calls, resolve?_iff_of_calls calls, same]
    · cases resolved : t'.resolve? a r with
      | none => exact .inr (.inl rfl)
      | some id =>
          have only := (resolve?_iff_of_calls calls).mp resolved
          rw [more] at only
          obtain ⟨-, rfl⟩ := eq_nil_of_concat_eq_singleton only
          exact .inr (.inr rfl)
  · rw [resolve?_of_no_call calls, resolve?_of_no_call calls]
    exact .inl rfl

/-- A call that means the new method had no candidate before. -/
theorem Adds.candidates_of_found (h : t.Adds n t') (indexed : t.Indexed) (calls : Calls a r c name)
    (resolved : t'.resolve? a r = some n) : t.candidates a c name = [] := by
  have only := (resolve?_iff_of_calls calls).mp resolved
  rcases h.candidates indexed a c name with same | more
  · have old : n ∈ t.candidates a c name := by simp [← same, only]
    obtain ⟨m, found⟩ := method_of_candidate old
    rw [h.new] at found
    cases found
  · rw [more] at only
    exact (eq_nil_of_concat_eq_singleton only).1

/-- A call that loses its meaning has the new method as a candidate. -/
theorem Adds.candidate_of_lost (h : t.Adds n t') (indexed : t.Indexed) (calls : Calls a r c name)
    (resolved : t.resolve? a r = some id) (lost : t'.resolve? a r = none) :
    n ∈ t'.candidates a c name := by
  rcases h.candidates indexed a c name with same | more
  · have only := (resolve?_iff_of_calls calls).mp resolved
    have kept := (resolve?_iff_of_calls calls).mpr (same.trans only)
    rw [lost] at kept
    cases kept
  · simp [more]

/-- A call keeps its meaning when the new method cannot take its arguments. -/
theorem Adds.resolve?_of_unfit (h : t.Adds n t') (indexed : t.Indexed) {m : Method}
    (added : t'.method? n = some m) (resolved : t.resolve? a r = some id)
    (unfit : ∀ c, a.callAt? r = some c → ¬ c.Fits a m.parameters) : t'.resolve? a r = some id := by
  obtain ⟨c, name, calls⟩ := exists_calls resolved
  rcases h.outcome indexed a r with same | lost | new
  · rw [same, resolved]
  · have listed := h.candidate_of_lost indexed calls resolved lost
    exact absurd (fits_of_candidate listed added) (unfit c calls.1)
  · exact absurd (fits_of_resolve? new calls.1 added) (unfit c calls.1)

theorem Adds.respects (h : t.Adds n t') (indexed : t.Indexed) (r : NodeRef) :
    Respects t t' n a r where
  outcome := h.outcome indexed a r
  found resolved c name calls id may := by
    have listed := (mem_candidates indexed).mpr may
    rw [h.candidates_of_found indexed calls resolved] at listed
    cases listed
  lost resolved lost := by
    obtain ⟨id, resolved⟩ := Option.isSome_iff_exists.mp resolved
    obtain ⟨c, name, calls⟩ := exists_calls resolved
    have listed := h.candidate_of_lost indexed calls resolved lost
    exact ⟨c, name, calls, (mem_candidates (h.indexed indexed)).mp listed⟩

/-- However many methods are added, a call that means an old one has always meant it, and one that
    meant it does so still or means nothing. -/
theorem Grows.resolve? (h : t.Grows t') (indexed : t.Indexed) (old : t.method? id ≠ none) :
    (t'.resolve? a r = some id → t.resolve? a r = some id) ∧
      (t.resolve? a r = some id → t'.resolve? a r = some id ∨ t'.resolve? a r = none) := by
  constructor
  · intro resolved
    obtain ⟨c, name, calls⟩ := exists_calls resolved
    obtain ⟨-, more, split, new⟩ := h.candidates indexed a c name
    have only := (resolve?_iff_of_calls calls).mp resolved
    rw [split] at only
    rcases List.append_eq_singleton_iff.mp only with ⟨-, rest⟩ | ⟨before, -⟩
    · exact absurd (new id (by simp [rest])) old
    · exact (resolve?_iff_of_calls calls).mpr before
  · intro resolved
    obtain ⟨c, name, calls⟩ := exists_calls resolved
    obtain ⟨-, more, split, -⟩ := h.candidates indexed a c name
    rw [(resolve?_iff_of_calls calls).mp resolved] at split
    cases after : t'.resolve? a r with
    | none => exact .inr rfl
    | some other =>
        rw [(resolve?_iff_of_calls calls).mp after] at split
        cases split
        exact .inl rfl

/-- Another method, declared or as a wrapper, redirects no call to another old method, and neither
    does any number of them. -/
theorem additions_redirect_nothing (changes : List TableChange) (a : Arena) (r : NodeRef) :
    (∀ n t', (ofChanges changes).Adds n t' → Respects (ofChanges changes) t' n a r) ∧
      ∀ t', (ofChanges changes).Grows t' → ∀ id, (ofChanges changes).method? id ≠ none →
        (t'.resolve? a r = some id → (ofChanges changes).resolve? a r = some id) ∧
        ((ofChanges changes).resolve? a r = some id →
          t'.resolve? a r = some id ∨ t'.resolve? a r = none) :=
  ⟨fun _ _ adds => adds.respects (indexed_ofChanges changes) r,
    fun _ grows _ old => grows.resolve? (indexed_ofChanges changes) old⟩

/-- The overloads with one more, which takes any argument, in the class of the first. -/
theorem overloads_respected :
    let a := (SyntaxTree.ofItems [.statement (.call "q.A.f" [.number "1"])]).arena
    let t := ofChanges overloads
    let t' := t.addMethod ⟨"f", some 0, [⟨some "y", .object, false⟩], .regular⟩
    a.Acyclic ∧ t.Adds 4 t' ∧ t.Grows t' ∧ t.resolve? a (some 7) = some 0 ∧
      t'.resolve? a (some 7) = none ∧ Respects t t' 4 a (some 7) ∧
      (t.resolve? a (some 7) = some 0 →
        t'.resolve? a (some 7) = some 0 ∨ t'.resolve? a (some 7) = none) := by
  intro a t t'
  have acyclic : a.Acyclic := (SyntaxTree.wellFormed_ofItems _ rfl).acyclic
  have adds : t.Adds 4 t' := .method _
  have grows : t.Grows t' := .single ⟨4, adds⟩
  have redirected := additions_redirect_nothing overloads a (some 7)
  exact ⟨acyclic, adds, grows, by decide +kernel, by decide +kernel, redirected.1 4 t' adds,
    (redirected.2 t' grows 0 (by decide)).2⟩

end ParameterHints.Table
