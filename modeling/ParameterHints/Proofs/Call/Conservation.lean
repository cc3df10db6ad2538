import ParameterHints.Proofs.Call.Alignment

/-! # Conservation of arguments

A call binds all of its arguments or none, and it is the numbers of arguments and parameters that
decide, once named arguments have found their map. What is bound is the arguments as they were
written, the named ones first, cut at the parameters. There is no other way to cut them.
-/

namespace ParameterHints

namespace Signature

/-- Whether the last parameter takes any number of arguments. -/
def variadic (parameters : Signature) : Bool := parameters.getLast?.any Parameter.varargs

/-- Whether a number of arguments can be passed one by one, with what is left over going to a last
    parameter with varargs. -/
def Admits (parameters : Signature) (count : Nat) : Prop :=
  if parameters.variadic then parameters.length - 1 ≤ count else count = parameters.length

theorem variadic_cons_cons (first second : Parameter) (rest : List Parameter) :
    variadic (first :: second :: rest) = variadic (second :: rest) := by
  simp [variadic, List.getLast?_cons_cons]

end Signature

/-! ## Positional arguments -/

/-- Parameters share arguments: the arguments are cut into one stretch for each parameter. Any
    stretch goes to a last parameter with varargs, and one argument to every other parameter. -/
structure Shares (parameters : List Parameter) (arguments : List NodeRef)
    (bindings : List Binding) : Prop where
  each : bindings.length = parameters.length
  whole : bindings.flatMap Binding.arguments = arguments
  aggregating : ∀ i p b, parameters[i]? = some p → bindings[i]? = some b →
    (b.aggregating ↔ p.varargs ∧ i + 1 = parameters.length)
  single : ∀ b ∈ bindings, b.aggregating = false → ∃ argument, b.arguments = [argument]

theorem isSome_bindPositional (parameters : List Parameter) (arguments : List NodeRef) :
    (bindPositional parameters arguments).isSome ↔
      Signature.Admits parameters arguments.length := by
  fun_induction bindPositional parameters arguments with
  | case1 | case2 => simp [Signature.Admits, Signature.variadic]
  | case3 _ _ varargs | case4 _ varargs => simp [Signature.Admits, Signature.variadic, varargs]
  | case5 last arguments varargs several =>
      have other : arguments.length ≠ 1 := fun one => by
        obtain ⟨argument, rfl⟩ := List.length_eq_one_iff.mp one
        exact several argument rfl
      simp [Signature.Admits, Signature.variadic, varargs, other]
  | case6 first second rest => simp [Signature.Admits]
  | case7 first second rest argument arguments ih =>
      rw [Option.isSome_map, ih, Signature.Admits, Signature.Admits,
        Signature.variadic_cons_cons]
      simp

namespace Binding

theorem eq_single {b : Binding} {argument : NodeRef} (alone : b.aggregating = false)
    (h : b.arguments = [argument]) : b = .single argument := by
  cases b
  cases alone
  cases h
  rfl

theorem eq_multiple {b : Binding} (several : b.aggregating = true) :
    b = .multiple b.arguments := by
  cases b
  cases several
  rfl

end Binding

namespace Shares

variable {p q : Parameter} {parameters : List Parameter} {arguments : List NodeRef} {b : Binding}
  {bindings : List Binding}

theorem of_bindPositional (h : bindPositional parameters arguments = some bindings) :
    Shares parameters arguments bindings := by
  have length := length_bindPositional h
  refine ⟨length, flatMap_bindPositional h, ?_, ?_⟩
  · intro i p b hp hb
    have shape := getElem?_bindPositional h hp hb
    split at shape
    · next spread => simp [shape, Binding.multiple, spread]
    · next single =>
        obtain ⟨argument, -, rfl⟩ := shape
        simp [Binding.single, single]
  · intro b member alone
    obtain ⟨i, inside, rfl⟩ := List.mem_iff_getElem.mp member
    have hp : parameters[i]? = some parameters[i] := List.getElem?_eq_getElem (by omega)
    have shape := getElem?_bindPositional h hp (List.getElem?_eq_getElem inside)
    split at shape
    · rw [shape] at alone
      cases alone
    · obtain ⟨argument, -, single⟩ := shape
      exact ⟨argument, by rw [single, Binding.single]⟩

/-- The parameters behind the first share what the first leaves. -/
theorem tail (h : Shares (p :: q :: parameters) arguments (b :: bindings)) :
    Shares (q :: parameters) (bindings.flatMap Binding.arguments) bindings where
  each := by simpa using h.each
  whole := rfl
  aggregating i p' b' hp hb := by
    simpa using h.aggregating (i + 1) p' b' (by simpa using hp) (by simpa using hb)
  single b' member := h.single b' (List.mem_cons_of_mem _ member)

/-- A parameter with others behind it is bound to one argument. -/
theorem head (h : Shares (p :: q :: parameters) arguments (b :: bindings)) :
    ∃ argument, b = .single argument := by
  have alone : b.aggregating = false := by
    simpa using h.aggregating 0 p b rfl rfl
  obtain ⟨argument, here⟩ := h.single b List.mem_cons_self alone
  exact ⟨argument, Binding.eq_single alone here⟩

end Shares

/-- Positional arguments are bound in the one way in which the parameters can share them. -/
theorem bindPositional_eq_some_iff {parameters : List Parameter} {arguments : List NodeRef}
    {bindings : List Binding} :
    bindPositional parameters arguments = some bindings ↔
      Shares parameters arguments bindings := by
  refine ⟨Shares.of_bindPositional, fun h => ?_⟩
  -- Only the last parameter can take other than one argument, so the cut is found from the front.
  induction parameters generalizing arguments bindings with
  | nil =>
      obtain rfl : bindings = [] := List.eq_nil_of_length_eq_zero h.each
      rw [← h.whole]
      rfl
  | cons p rest ih =>
      obtain ⟨b, others, rfl⟩ := List.exists_cons_of_length_eq_add_one h.each
      cases rest with
      | nil =>
          obtain rfl : others = [] := List.eq_nil_of_length_eq_zero (by simpa using h.each)
          have whole : b.arguments = arguments := by simpa using h.whole
          have last := h.aggregating 0 p b rfl rfl
          by_cases varargs : p.varargs
          · have several : b.aggregating = true := last.mpr ⟨varargs, rfl⟩
            rw [bindPositional.eq_def]
            simp only [if_pos varargs]
            rw [← whole, ← Binding.eq_multiple several]
          · have alone : b.aggregating = false := by simpa [varargs] using last
            obtain ⟨argument, here⟩ := h.single b List.mem_cons_self alone
            rw [bindPositional.eq_def, ← whole, here]
            simp only [if_neg varargs]
            rw [← Binding.eq_single alone here]
      | cons q parameters =>
          obtain ⟨argument, rfl⟩ := h.head
          rw [← h.whole, List.flatMap_cons, Binding.single, List.singleton_append, bindPositional,
            ih h.tail]
          rfl

/-! ## Whole calls -/

namespace Call

/-- How many parameters in front the named arguments of a call take up. -/
def reserved (c : Call) (a : Arena) : Nat := if c.namedArguments a = [] then 0 else 1

/-- Named arguments, if there are any, find a map in front of the parameters. -/
def FindsMap (c : Call) (a : Arena) (parameters : List Parameter) : Prop :=
  c.namedArguments a = [] ∨ ∃ first, parameters.head? = some first ∧ first.type = .map

end Call

/-- Bindings conserve the arguments of a call: each parameter has one, and one after another they
    hold the named arguments and then the positional ones, each once. Any number is held by the
    binding of the named arguments and by that of varargs behind it, and one argument by every
    other. -/
structure Conserves (parameters : List Parameter) (a : Arena) (c : Call)
    (bindings : List Binding) : Prop where
  each : bindings.length = parameters.length
  whole : bindings.flatMap Binding.arguments = c.namedArguments a ++ c.positionalArguments a
  named : c.namedArguments a ≠ [] → ∀ b, bindings.head? = some b → b.arguments = c.namedArguments a
  aggregating : ∀ i p b, parameters[i]? = some p → bindings[i]? = some b →
    (b.aggregating ↔ i = 0 ∧ c.namedArguments a ≠ [] ∨
      c.reserved a ≤ i ∧ p.varargs ∧ i + 1 = parameters.length)
  single : ∀ b ∈ bindings, b.aggregating = false → ∃ argument, b.arguments = [argument]

section Whole

variable {parameters rest : List Parameter} {p : Parameter} {a : Arena} {c : Call}
  {bindings others : List Binding} {b : Binding}

theorem bindArguments_unnamed (unnamed : c.namedArguments a = []) :
    bindArguments parameters a c = bindPositional parameters (c.positionalArguments a) := by
  unfold bindArguments
  rw [unnamed]

theorem bindArguments_nil (named : c.namedArguments a ≠ []) : bindArguments [] a c = none := by
  obtain ⟨r, more, split⟩ := List.exists_cons_of_ne_nil named
  unfold bindArguments
  rw [split]

theorem bindArguments_cons (named : c.namedArguments a ≠ []) :
    bindArguments (p :: rest) a c =
      if p.type = .map then
        (bindPositional rest (c.positionalArguments a)).map (.multiple (c.namedArguments a) :: ·)
      else none := by
  obtain ⟨r, more, split⟩ := List.exists_cons_of_ne_nil named
  unfold bindArguments
  rw [split]

/-! Without named arguments it is all parameters that share the positional ones, and with them it
is all but the first. -/

theorem conserves_unnamed_iff (unnamed : c.namedArguments a = []) :
    Conserves parameters a c bindings ↔
      Shares parameters (c.positionalArguments a) bindings := by
  have reserved : c.reserved a = 0 := if_pos unnamed
  constructor
  · rintro ⟨each, whole, -, aggregating, single⟩
    exact ⟨each, by simpa [unnamed] using whole,
      fun i p b hp hb => by simpa [unnamed, reserved] using aggregating i p b hp hb, single⟩
  · rintro ⟨each, whole, aggregating, single⟩
    exact ⟨each, by simpa [unnamed] using whole, fun named => absurd unnamed named,
      fun i p b hp hb => by simpa [unnamed, reserved] using aggregating i p b hp hb, single⟩

theorem conserves_cons_iff (named : c.namedArguments a ≠ []) :
    Conserves (p :: rest) a c (b :: others) ↔
      b = .multiple (c.namedArguments a) ∧ Shares rest (c.positionalArguments a) others := by
  have reserved : c.reserved a = 1 := if_neg named
  constructor
  · rintro ⟨each, whole, front, aggregating, single⟩
    have several : b.aggregating = true := (aggregating 0 p b rfl rfl).mpr (.inl ⟨rfl, named⟩)
    have held : b.arguments = c.namedArguments a := front named b rfl
    refine ⟨held ▸ Binding.eq_multiple several, by simpa using each, ?_, ?_, ?_⟩
    · -- The first binding holds just the named arguments, and they cancel.
      rw [List.flatMap_cons, held] at whole
      exact List.append_cancel_left whole
    · intro i p' b' hp hb
      simpa [reserved] using aggregating (i + 1) p' b' (by simpa using hp) (by simpa using hb)
    · exact fun b' member => single b' (List.mem_cons_of_mem _ member)
  · rintro ⟨rfl, each, whole, aggregating, single⟩
    refine ⟨by simpa using each, by rw [List.flatMap_cons, whole]; rfl, ?_, ?_, ?_⟩
    · intro _ b here
      cases here
      rfl
    · intro i p' b' hp hb
      cases i with
      | zero =>
          cases hb
          simp [Binding.multiple, named]
      | succ i =>
          simpa [reserved] using aggregating i p' b' (by simpa using hp) (by simpa using hb)
    · intro b' member alone
      rcases List.mem_cons.mp member with rfl | behind
      · cases alone
      · exact single b' behind alone

/-- A call is bound in the one way that conserves its arguments, provided that its named arguments
    find a map. -/
theorem bindArguments_eq_some_iff :
    bindArguments parameters a c = some bindings ↔
      c.FindsMap a parameters ∧ Conserves parameters a c bindings := by
  rcases eq_or_ne (c.namedArguments a) [] with unnamed | named
  · rw [bindArguments_unnamed unnamed, bindPositional_eq_some_iff, conserves_unnamed_iff unnamed]
    exact (and_iff_right (.inl unnamed)).symm
  · cases parameters with
    | nil => simp [bindArguments_nil named, Call.FindsMap, named]
    | cons first rest =>
        have finds : c.FindsMap a (first :: rest) ↔ first.type = .map := by
          simp [Call.FindsMap, named]
        rw [bindArguments_cons named, finds]
        constructor
        · intro h
          split at h
          · next map =>
              obtain ⟨others, bound, rfl⟩ := Option.map_eq_some_iff.mp h
              have shared := bindPositional_eq_some_iff.mp bound
              exact ⟨map, (conserves_cons_iff named).mpr ⟨rfl, shared⟩⟩
          · cases h
        · rintro ⟨map, conserved⟩
          obtain ⟨b, others, rfl⟩ := List.exists_cons_of_length_eq_add_one conserved.each
          obtain ⟨rfl, shared⟩ := (conserves_cons_iff named).mp conserved
          rw [if_pos map, bindPositional_eq_some_iff.mpr shared]
          rfl

/-- A call is bound exactly if its named arguments find a map and the parameters behind that admit
    the number of positional arguments. -/
theorem isSome_bindArguments :
    (bindArguments parameters a c).isSome ↔ c.FindsMap a parameters ∧
      Signature.Admits (parameters.drop (c.reserved a)) (c.positionalArguments a).length := by
  rcases eq_or_ne (c.namedArguments a) [] with unnamed | named
  · rw [bindArguments_unnamed unnamed, isSome_bindPositional]
    simp [Call.FindsMap, Call.reserved, unnamed]
  · cases parameters with
    | nil => simp [bindArguments_nil named, Call.FindsMap, named]
    | cons first rest =>
        rw [bindArguments_cons named]
        by_cases map : first.type = .map
        · simp [map, isSome_bindPositional, Call.FindsMap, Call.reserved, named]
        · simp [map, Call.FindsMap, named]

end Whole

/-- A call binds all of its arguments to parameters or none. Whether it does is settled by the
    number of the arguments and by a map for the named ones, and if it does it is in the one way
    that conserves the arguments. -/
theorem binds_all_or_none (parameters : List Parameter) (a : Arena) (c : Call) :
    ((∃ bindings, bindArguments parameters a c = some bindings) ↔ c.FindsMap a parameters ∧
      Signature.Admits (parameters.drop (c.reserved a)) (c.positionalArguments a).length) ∧
    ∀ bindings, bindArguments parameters a c = some bindings ↔
      c.FindsMap a parameters ∧ Conserves parameters a c bindings := by
  rw [← Option.isSome_iff_exists]
  exact ⟨isSome_bindArguments, fun bindings => bindArguments_eq_some_iff⟩

/-- The map takes the named argument out of the middle, and varargs take what is left over. -/
theorem gathering_conserves :
    let a := (SyntaxTree.ofItems [.statement (.trailing
      (.call "f" [.string "x", .named "k" (.number "1"), .number "2"]) [])]).arena
    let c : Call := ⟨some 1, [some 2, some 5, some 6], [some 8]⟩
    let parameters := Table.gathering.parameters
    let bindings := [.multiple [some 5], .single (some 2), .multiple [some 6, some 8]]
    a.callAt? (some 7) = some c ∧ bindArguments parameters a c = some bindings ∧
      c.FindsMap a parameters ∧ Conserves parameters a c bindings := by
  intro a c parameters bindings
  have bound : bindArguments parameters a c = some bindings := by decide +kernel
  exact ⟨by decide +kernel, bound, ((binds_all_or_none parameters a c).2 bindings).mp bound⟩

end ParameterHints
