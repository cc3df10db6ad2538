import ParameterHints.Proofs.Call.Additions
import ParameterHints.Proofs.Call.Conservation

/-! # Wrappers beside their methods

A wrapper lacks the receiver, so it takes one argument less than the method that it wraps. As long
as the last parameter has no varargs the two never apply to one call, and the wrapper takes no call
away from the method.
-/

namespace ParameterHints

variable {a : Arena} {c : Call} {first : Parameter} {parameters rest : List Parameter}

/-- What is left behind the first parameters ends without varargs as well, if only because nothing
    is left. -/
theorem Signature.variadic_drop (fixed : Signature.variadic parameters = false) (n : Nat) :
    Signature.variadic (parameters.drop n) = false := by
  rw [Signature.variadic, List.getLast?_drop]
  split
  · rfl
  · exact fixed

namespace Call.Fits

/-- Without varargs at the end parameters take one number of arguments only. The named ones count as
    one. -/
theorem count (h : c.Fits a parameters) (fixed : Signature.variadic parameters = false) :
    c.reserved a + (c.positionalArguments a).length = parameters.length := by
  obtain ⟨bindings, bound, -⟩ := h
  obtain ⟨finds, admits⟩ := isSome_bindArguments.mp (Option.isSome_of_eq_some bound)
  have left : (c.positionalArguments a).length = parameters.length - c.reserved a := by
    simpa [Signature.Admits, Signature.variadic_drop fixed] using admits
  have room : c.reserved a ≤ parameters.length := by
    rcases finds with unnamed | ⟨map, front, -⟩
    · simp [reserved, unnamed]
    · have nonempty : 0 < parameters.length := List.length_pos_of_mem (List.mem_of_head? front)
      unfold reserved
      split <;> omega
  omega

/-- No call fits both all parameters and those behind the first. -/
theorem not_behind_first (h : c.Fits a (first :: rest))
    (fixed : Signature.variadic (first :: rest) = false) : ¬ c.Fits a rest := by
  intro shorter
  have long := h.count fixed
  have short := shorter.count (Signature.variadic_drop fixed 1)
  rw [List.length_cons] at long
  omega

end Call.Fits

namespace Table

variable {t : Table} {id : MethodId} {s w : Method}

/-- A method without varargs at the end and a wrapper around it exclude each other. -/
theorem Wraps.exclusive (h : t.Wraps w id s) (fixed : Signature.variadic s.parameters = false)
    (c : Call) (a : Arena) : ¬ (c.Fits a s.parameters ∧ c.Fits a w.parameters) := by
  obtain ⟨receiver, split⟩ := h.parameters
  rintro ⟨whole, behind⟩
  rw [split] at whole fixed
  exact whole.not_behind_first fixed behind

/-- A method with a parameter gets a wrapper. -/
theorem exists_wrapper (found : t.method? id = some s) (receiver : s.parameters ≠ []) :
    ∃ w, t.addWrapper? id = some (t.addMethod w) ∧ (t.addMethod w).Wraps w id s := by
  obtain ⟨first, rest, split⟩ := List.exists_cons_of_ne_nil receiver
  have made := wrapper?_eq_some_iff.mpr ⟨s, first, rest, found, split, rfl⟩
  exact ⟨⟨s.name, none, rest, .wrapper id⟩, by rw [addWrapper?, made, Option.map_some],
    method?_addMethod_of_some found _, rfl, rfl, first, split⟩

/-- A wrapper around a method without varargs at the end never competes with that: no call fits both
    of them, each call that means the method still does when the wrapper is added, and a call that
    means the wrapper is one that the method cannot take. -/
theorem wrapper_never_competes (changes : List TableChange) (id : MethodId) (s : Method)
    (found : (ofChanges changes).method? id = some s) (receiver : s.parameters ≠ [])
    (fixed : Signature.variadic s.parameters = false) (a : Arena) :
    let t := ofChanges changes
    let t' := ofChanges (changes ++ [.addWrapper id])
    ∃ w, t'.method? t.nextMethod = some w ∧ t'.Wraps w id s ∧
      (∀ c, ¬ (Call.Fits c a s.parameters ∧ Call.Fits c a w.parameters)) ∧
      (∀ r, t.resolve? a r = some id → t'.resolve? a r = some id) ∧
      ∀ r c, a.callAt? r = some c → t'.resolve? a r = some t.nextMethod →
        Call.Fits c a w.parameters ∧ ¬ Call.Fits c a s.parameters := by
  intro t t'
  obtain ⟨w, made, wraps⟩ := exists_wrapper found receiver
  have grown : t' = t.addMethod w := by
    simp only [t', ofChanges_concat, TableChange.apply]
    rw [made, Option.getD_some]
  rw [grown]
  have adds : t.Adds t.nextMethod (t.addMethod w) := .wrapper made
  have new : (t.addMethod w).method? t.nextMethod = some w := by rw [method?_addMethod, if_pos rfl]
  refine ⟨w, new, wraps, fun c => wraps.exclusive fixed c a, fun r resolved => ?_, ?_⟩
  · refine adds.resolve?_of_unfit (indexed_ofChanges changes) new resolved fun c call fits => ?_
    exact wraps.exclusive fixed c a ⟨fits_of_resolve? resolved call found, fits⟩
  · intro r c call resolved
    have fits : c.Fits a w.parameters := fits_of_resolve? resolved call new
    exact ⟨fits, fun also => wraps.exclusive fixed c a ⟨also, fits⟩⟩

/-- A method with two maps, either of which may take named arguments. -/
def mapped : Method :=
  ⟨"f", some 0, [⟨some "self", .map, false⟩, ⟨some "options", .map, false⟩], .regular⟩

/-- With a named argument and another one a call means the method, with just the named one it means
    the wrapper. -/
theorem mapped_never_competes :
    let a := (SyntaxTree.ofItems [.statement (.call "f" [.named "k" (.number "1"), .path "x"]),
      .statement (.call "f" [.named "k" (.number "1")])]).arena
    let t := ofChanges [.addClass "q.A", .addMethod mapped]
    let t' := ofChanges [.addClass "q.A", .addMethod mapped, .addWrapper 0]
    t.method? 0 = some mapped ∧ mapped.parameters ≠ [] ∧
      Signature.variadic mapped.parameters = false ∧ t.resolve? a (some 7) = some 0 ∧
      t'.resolve? a (some 13) = some 1 ∧ ∃ w, t'.method? 1 = some w ∧ t'.Wraps w 0 mapped ∧
        (∀ c, ¬ (Call.Fits c a mapped.parameters ∧ Call.Fits c a w.parameters)) ∧
        (∀ r, t.resolve? a r = some 0 → t'.resolve? a r = some 0) ∧
        ∀ r c, a.callAt? r = some c → t'.resolve? a r = some 1 →
          Call.Fits c a w.parameters ∧ ¬ Call.Fits c a mapped.parameters := by
  intro a t t'
  have receiver : mapped.parameters ≠ [] := List.cons_ne_nil _ _
  exact ⟨rfl, receiver, rfl, by decide +kernel, by decide +kernel,
    wrapper_never_competes [.addClass "q.A", .addMethod mapped] 0 mapped rfl receiver rfl a⟩

end Table

end ParameterHints
