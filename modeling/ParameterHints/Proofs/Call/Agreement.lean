import Mathlib.Data.List.Forall2
import ParameterHints.Proofs.Call.Conservation

/-! # Agreement of the questions about a call

A host is asked for the method of a call, for its signature and for its bindings, and each answer is
worked out anew. Over a table they agree in every arena, whatever it holds: a call that resolves is
bound without a rest, and a call that does not resolve has no other answer either.
-/

namespace ParameterHints

/-- The argument at a place is a node, and it is a named one or of a type that fits. -/
def Parameter.Takes (p : Parameter) (a : Arena) (argument : NodeRef) : Prop :=
  ∃ n, a.node? argument = some n ∧ (n.kind = .namedArgument ∨ p.type.accepts a argument)

theorem Parameter.takes_of_fit {p : Parameter} {a : Arena} {argument : NodeRef}
    (h : a.isNamedArgument argument ∨ p.type.accepts a argument) : p.Takes a argument := by
  rcases h with named | accepted
  · obtain ⟨n, here, kind⟩ := (Option.any_eq_true ..).mp named
    exact ⟨n, here, .inl (by simpa using kind)⟩
  · obtain ⟨n, here⟩ := Option.isSome_iff_exists.mp (Option.isSome_of_any accepted)
    exact ⟨n, here, .inr accepted⟩

section Binding

variable {parameters : List Parameter} {a : Arena} {c : Call} {bindings : List Binding}

theorem length_bindArguments (h : bindArguments parameters a c = some bindings) :
    bindings.length = parameters.length :=
  (bindArguments_eq_some_iff.mp h).2.each

/-- Every argument of a call is bound, and once only. -/
theorem perm_bindArguments (h : bindArguments parameters a c = some bindings) :
    (bindings.flatMap Binding.arguments).Perm c.allArguments := by
  rw [(bindArguments_eq_some_iff.mp h).2.whole, Call.positionalArguments, ← List.append_assoc]
  exact (List.filter_append_perm _ _).append_right _

end Binding

namespace Table

variable {t : Table} {a : Arena} {r : NodeRef} {id : MethodId} {m : Method}

/-- What a table says of a call that means a method: its signature is that of the method, there is
    a binding for each parameter, every bound argument fits, and no argument dangles. -/
structure Settled (t : Table) (a : Arena) (r : NodeRef) (m : Method) : Prop where
  signature : t.host.signature? a r = some m.parameters
  bound : ∃ bindings, t.host.bindings? m.parameters a r = some bindings ∧
    List.Forall₂ (fun p b => ∀ argument ∈ b.arguments, p.Takes a argument) m.parameters bindings
  live : ∃ c, a.callAt? r = some c ∧ ∀ argument ∈ c.allArguments, (a.node? argument).isSome

/-- A candidate is a method of the table. -/
theorem method_of_resolve? (h : t.resolve? a r = some id) : ∃ m, t.method? id = some m := by
  obtain ⟨c, name, -, -, only⟩ := resolve?_eq_some_iff.mp h
  have listed : id ∈ t.candidates a c name := by simp [only]
  exact method_of_candidate listed

theorem settled_of_resolve? (h : t.resolve? a r = some id) (found : t.method? id = some m) :
    t.Settled a r m := by
  obtain ⟨c, name, call, -, -⟩ := resolve?_eq_some_iff.mp h
  obtain ⟨bindings, bound, fit⟩ := fits_of_resolve? h call found
  have length := length_bindArguments bound
  have taken : List.Forall₂ (fun p b => ∀ argument ∈ b.arguments, p.Takes a argument)
      m.parameters bindings := by
    apply List.forall₂_iff_zip.mpr
    refine ⟨length.symm, ?_⟩
    intro p b pair argument member
    exact Parameter.takes_of_fit (fit p b pair argument member)
  refine ⟨?_, ⟨bindings, ?_, taken⟩, c, call, ?_⟩
  · simp [host, signature?, h, found]
  · simp [host, call, bound]
  · intro argument member
    have inside := (perm_bindArguments bound).mem_iff.mpr member
    obtain ⟨b, listed, inside⟩ := List.mem_flatMap.mp inside
    -- Bindings are no more than parameters, so none is left out when the types are checked.
    obtain ⟨i, lt, rfl⟩ := List.mem_iff_getElem.mp listed
    obtain ⟨n, here, -⟩ := taken.get (by omega) lt argument inside
    simp [here]

theorem resolves_of_signature? (h : (t.host.signature? a r).isSome) : (t.resolve? a r).isSome := by
  obtain ⟨signature, h⟩ := Option.isSome_iff_exists.mp h
  obtain ⟨id, resolved, -⟩ := Option.bind_eq_some_iff.mp h
  simp [resolved]

theorem resolves_of_hints (h : t.host.hints a r ≠ []) : (t.resolve? a r).isSome := by
  rcases t.hints_host a r with silent | ⟨c, m, bindings, analysed⟩
  · exact absurd silent h
  · obtain ⟨id, resolved, -⟩ := analysed.resolved
    simp [resolved]

theorem resolves_of_methodInfo? (h : (t.host.methodInfo? a r).isSome) :
    (t.resolve? a r).isSome := by
  obtain ⟨info, h⟩ := Option.isSome_iff_exists.mp h
  obtain ⟨c, -, h⟩ := Option.bind_eq_some_iff.mp h
  obtain ⟨id, resolved, -⟩ := Option.bind_eq_some_iff.mp h
  exact Option.isSome_iff_exists.mpr ⟨id, resolved⟩

/-- A call that resolves is settled, and only such a call has a signature, hints or an identity. -/
theorem answers_agree (t : Table) (a : Arena) (r : NodeRef) :
    (∀ id, t.host.resolve? a r = some id →
      ∃ m, t.host.method? id = some m ∧ t.Settled a r m) ∧
    ((t.host.signature? a r).isSome ∨ t.host.groovyProvider.hints a r ≠ [] ∨
      (t.host.groovyProvider.methodInfo? a r).isSome → (t.host.resolve? a r).isSome) := by
  constructor
  · intro id resolved
    obtain ⟨m, found⟩ := method_of_resolve? resolved
    exact ⟨m, found, settled_of_resolve? resolved found⟩
  · rintro (signature | hints | info)
    · exact resolves_of_signature? signature
    · exact resolves_of_hints hints
    · exact resolves_of_methodInfo? info

/-- A named argument, two positional ones and a closure behind the call are all bound. -/
theorem gathering_agrees :
    let a := (SyntaxTree.ofItems [.statement (.trailing
      (.call "f" [.named "k" (.number "1"), .string "x", .number "2"]) [])]).arena
    let t := Table.empty.addMethod gathering
    (t.host.resolve? a (some 7) = some 0 ∧
      ∃ m, t.host.method? 0 = some m ∧ t.Settled a (some 7) m) ∧
    ((t.host.signature? a (some 7)).isSome ∧ (t.host.resolve? a (some 7)).isSome) := by
  intro a t
  have resolved : t.host.resolve? a (some 7) = some 0 := by decide +kernel
  have signature : (t.host.signature? a (some 7)).isSome := by decide +kernel
  exact ⟨⟨resolved, (answers_agree t a (some 7)).1 0 resolved⟩, signature,
    (answers_agree t a (some 7)).2 (.inl signature)⟩

end Table

end ParameterHints
