import Mathlib.Data.List.Induction
import Mathlib.Logic.Relation
import ParameterHints.Proofs.Call.Alignment

/-! # Rearranged arguments

A call may mix its named arguments with the others in any way, and write closures inside its
parentheses or behind them. Only two lists count: the named arguments, and the others with the
closures behind the call. Calls in which these lists are the same are told apart by no question.
-/

namespace ParameterHints

namespace Call

/-- Two calls have the same callee, the same named arguments and the same other ones. -/
structure SameSequences (a : Arena) (c e : Call) : Prop where
  callee : c.callee = e.callee
  named : c.namedArguments a = e.namedArguments a
  positional : c.positionalArguments a = e.positionalArguments a

/-- One change in the writing of a call: a named argument and one without a name that stand side by
    side change places, or the last argument in the parentheses, which has no name, is written
    behind them. -/
inductive Rewrites (a : Arena) : Call → Call → Prop where
  | exchange {callee before x y after closures} :
      a.isNamedArgument x = true → a.isNamedArgument y = false →
      Rewrites a ⟨callee, before ++ x :: y :: after, closures⟩
        ⟨callee, before ++ y :: x :: after, closures⟩
  | moveOut {callee inside x closures} : a.isNamedArgument x = false →
      Rewrites a ⟨callee, inside ++ [x], closures⟩ ⟨callee, inside, x :: closures⟩

/-- The call with all named arguments, and nothing else, in its parentheses. -/
def gathered (c : Call) (a : Arena) : Call :=
  ⟨c.callee, c.namedArguments a, c.positionalArguments a⟩

variable {a : Arena} {c e : Call} {callee x : NodeRef} {closures : List NodeRef}

theorem sameSequences_iff : SameSequences a c e ↔ c.gathered a = e.gathered a := by
  rw [gathered, gathered, Call.mk.injEq]
  constructor
  · rintro ⟨callee, named, positional⟩
    exact ⟨callee, named, positional⟩
  · rintro ⟨callee, named, positional⟩
    exact ⟨callee, named, positional⟩

/-- A change in the writing leaves both lists as they are. -/
theorem Rewrites.gathered_eq (h : Rewrites a c e) : c.gathered a = e.gathered a := by
  cases h with
  | exchange named unnamed =>
      simp [gathered, namedArguments, positionalArguments, List.filter_append, named, unnamed]
  | moveOut unnamed =>
      simp [gathered, namedArguments, positionalArguments, List.filter_append, unnamed]

/-- An argument without a name goes through named ones to the end of the parentheses and behind
    them. -/
theorem move_through (before : List NodeRef) {named : List NodeRef}
    (unnamed : a.isNamedArgument x = false) (every : ∀ r ∈ named, a.isNamedArgument r = true) :
    Relation.EqvGen (Rewrites a) ⟨callee, before ++ x :: named, closures⟩
      ⟨callee, before ++ named, x :: closures⟩ := by
  induction named generalizing before with
  | nil =>
      rw [List.append_nil]
      exact .rel _ _ (.moveOut unnamed)
  | cons y rest ih =>
      obtain ⟨first, others⟩ := List.forall_mem_cons.mp every
      have passed : Relation.EqvGen (Rewrites a) ⟨callee, before ++ x :: y :: rest, closures⟩
          ⟨callee, before ++ y :: x :: rest, closures⟩ :=
        .symm _ _ (.rel _ _ (.exchange first unnamed))
      have further := ih (before ++ [y]) others
      rw [List.append_assoc, List.append_assoc] at further
      exact .trans _ _ _ passed further

/-- The arguments in front of named ones are gathered one by one, the last first. -/
theorem gather_before (callee : NodeRef) (inside : List NodeRef) {named : List NodeRef}
    (every : ∀ r ∈ named, a.isNamedArgument r = true) (closures : List NodeRef) :
    Relation.EqvGen (Rewrites a) ⟨callee, inside ++ named, closures⟩
      ⟨callee, inside.filter a.isNamedArgument ++ named,
        inside.filter (fun r => !a.isNamedArgument r) ++ closures⟩ := by
  induction inside using List.reverseRecOn generalizing named closures with
  | nil => exact .refl _
  | append_singleton front x ih =>
      rw [List.append_assoc, List.singleton_append]
      cases kind : a.isNamedArgument x with
      | true =>
          have gathered := ih (List.forall_mem_cons.mpr ⟨kind, every⟩) closures
          simpa [List.filter_append, kind] using gathered
      | false =>
          have gathered := ih every (x :: closures)
          refine .trans _ _ _ (move_through front kind every) ?_
          simpa [List.filter_append, kind] using gathered

theorem eqvGen_gathered (a : Arena) (c : Call) :
    Relation.EqvGen (Rewrites a) c (c.gathered a) := by
  have none : ∀ r ∈ ([] : List NodeRef), a.isNamedArgument r = true := by simp
  have gathered := gather_before c.callee c.arguments none c.closures
  rwa [List.append_nil, List.append_nil] at gathered

/-- Calls with the same lists are exactly those that changes in the writing make of one another. -/
theorem sameSequences_iff_eqvGen : SameSequences a c e ↔ Relation.EqvGen (Rewrites a) c e := by
  rw [sameSequences_iff]
  constructor
  · intro same
    refine .trans _ _ _ (eqvGen_gathered a c) ?_
    rw [same]
    exact .symm _ _ (eqvGen_gathered a e)
  · intro rewritten
    induction rewritten with
    | rel _ _ step => exact step.gathered_eq
    | refl _ => rfl
    | symm _ _ _ ih => exact ih.symm
    | trans _ _ _ _ _ first second => exact first.trans second

namespace SameSequences

theorem bindArguments_eq (h : SameSequences a c e) (parameters : List Parameter) :
    bindArguments parameters a c = bindArguments parameters a e := by
  unfold bindArguments
  rw [h.named, h.positional]

theorem isApplicable_eq (h : SameSequences a c e) (m : Method) :
    m.isApplicable a c = m.isApplicable a e := by
  rw [Method.isApplicable, Method.isApplicable, h.bindArguments_eq]

/-- Every method applies to both calls or to neither, so they have the same candidates. -/
theorem candidates_eq (h : SameSequences a c e) (t : Table) (name : String) :
    t.candidates a c name = t.candidates a e name := by
  have owner : t.owner? a c = t.owner? a e := by
    rw [Table.owner?, Table.owner?, h.callee]
  rw [Table.candidates, Table.candidates, owner]
  refine List.filter_congr fun id _ => ?_
  simp only [Table.isCandidate, h.isApplicable_eq]

end SameSequences

end Call

namespace Table

/-- A table answers every question about the call at one place as it does about that at another. -/
structure AnswersAlike (t : Table) (a : Arena) (r s : NodeRef) : Prop where
  resolved : t.host.resolve? a r = t.host.resolve? a s
  signature : t.host.signature? a r = t.host.signature? a s
  bindings : ∀ signature, t.host.bindings? signature a r = t.host.bindings? signature a s
  hints : t.host.groovyProvider.hints a r = t.host.groovyProvider.hints a s
  info : t.host.groovyProvider.methodInfo? a r = t.host.groovyProvider.methodInfo? a s

variable {a : Arena} {r s : NodeRef} {c e : Call}

theorem resolve?_eq_of_sameSequences (t : Table) (first : a.callAt? r = some c)
    (second : a.callAt? s = some e) (same : c.SameSequences a e) :
    t.resolve? a r = t.resolve? a s := by
  simp only [resolve?, first, second, Option.bind_eq_bind, Option.bind_some, same.callee,
    same.candidates_eq]

theorem bindings?_eq_of_sameSequences (t : Table) (first : a.callAt? r = some c)
    (second : a.callAt? s = some e) (same : c.SameSequences a e) (signature : Signature) :
    t.host.bindings? signature a r = t.host.bindings? signature a s := by
  simp only [host, first, second, Option.bind_some, same.bindArguments_eq]

end Table

/-- The hints of two calls are the same when they have one signature, bound alike. -/
theorem Host.hints_congr {h : Host} {a : Arena} {r s : NodeRef} {c e : Call}
    (first : a.callAt? r = some c) (second : a.callAt? s = some e)
    (signature : h.signature? a r = h.signature? a s)
    (bindings : ∀ signature, h.bindings? signature a r = h.bindings? signature a s) :
    h.hints a r = h.hints a s := by
  rw [hints, hints, if_pos (Arena.isCall_of_callAt? first), if_pos (Arena.isCall_of_callAt? second)]
  simp only [callHints?, signature, bindings]

theorem Host.methodInfo?_congr {h : Host} {a : Arena} {r s : NodeRef} {c e : Call}
    (first : a.callAt? r = some c) (second : a.callAt? s = some e)
    (resolved : h.resolve? a r = h.resolve? a s) : h.methodInfo? a r = h.methodInfo? a s := by
  rw [methodInfo?, methodInfo?, first, second, resolved]
  rfl

namespace Table

/-- Calls that changes in the writing make of one another are those with the same callee, named
    arguments and other arguments, and nothing that is asked about such calls tells them apart. -/
theorem sequences_settle_answers (t : Table) (a : Arena) :
    (∀ c e, Call.SameSequences a c e ↔ Relation.EqvGen (Call.Rewrites a) c e) ∧
      ∀ r s c e, a.callAt? r = some c → a.callAt? s = some e → Call.SameSequences a c e →
        t.AnswersAlike a r s := by
  constructor
  · exact fun c e => Call.sameSequences_iff_eqvGen
  · intro r s c e first second same
    have resolved := resolve?_eq_of_sameSequences t first second same
    have bindings := bindings?_eq_of_sameSequences t first second same
    have signature : t.host.signature? a r = t.host.signature? a s := by
      simp only [host, signature?, resolved]
    exact ⟨resolved, signature, bindings, Host.hints_congr first second signature bindings,
      Host.methodInfo?_congr first second resolved⟩

/-- A call with a named argument in front and a closure behind it, and the same call with the named
    argument in the middle and the closure in the parentheses. -/
def writtenTwice : Arena :=
  (SyntaxTree.ofItems [.statement (.trailing
    (.call "f" [.named "k" (.number "1"), .string "x", .number "2"]) [])]).arena.add
      (.call (some 1) [some 5, some 4, some 6, some 8] ⟨0, 21⟩)

theorem writtenTwice_answers_alike :
    let t := Table.empty.addMethod gathering
    t.host.groovyProvider.hints writtenTwice (some 7) = [⟨"x", 8⟩, ⟨"...rest", 13⟩] ∧
      t.AnswersAlike writtenTwice (some 7) (some 10) := by
  intro t
  have behind : writtenTwice.callAt? (some 7) =
      some ⟨some 1, [some 4, some 5, some 6], [some 8]⟩ := by decide +kernel
  have inside : writtenTwice.callAt? (some 10) =
      some ⟨some 1, [some 5, some 4, some 6, some 8], []⟩ := by decide +kernel
  refine ⟨by decide +kernel, (sequences_settle_answers t writtenTwice).2 _ _ _ _ behind inside ?_⟩
  exact ⟨rfl, by decide +kernel, by decide +kernel⟩

end Table

end ParameterHints
