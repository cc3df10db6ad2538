import ParameterHints.Proofs.Call.Anchors
import ParameterHints.Proofs.Call.Resolution
import ParameterHints.Proofs.Syntax.Storage

/-! # Hints beside arguments

Resolution, binding and hints each look at the arguments of a call anew. Together they put the
parameters side by side with the positional arguments: what a parameter shows depends only on the
argument at its own index.
-/

namespace ParameterHints

section Lists

variable {α β γ : Type}

/-- What is picked from two lists side by side, told by index. -/
theorem filterMap_zip_zipIdx {f : α × β → Option γ} {g : α × Nat → Option γ} {xs : List α}
    {ys : List β} (length : ys.length = xs.length)
    (agree : ∀ i x y, xs[i]? = some x → ys[i]? = some y → f (x, y) = g (x, i)) :
    (xs.zip ys).filterMap f = xs.zipIdx.filterMap g := by
  have same : (xs.zip ys).map f = xs.zipIdx.map g := by
    refine List.ext_getElem (by simp [length]) fun i first second => ?_
    simp only [List.length_map, List.length_zip, List.length_zipIdx] at first second
    simp only [List.getElem_map, List.getElem_zip, List.getElem_zipIdx, Nat.zero_add]
    exact agree i _ _ (List.getElem?_eq_getElem (by omega)) (List.getElem?_eq_getElem (by omega))
  have direct := congrArg (List.filterMap id) same
  rwa [List.filterMap_map, List.filterMap_map] at direct

/-- Looking up the members of a list by the indices of another takes as many as that has. -/
theorem filterMap_zipIdx_getElem? (f : β → Option γ) (xs : List α) (ys : List β) (skipped : Nat) :
    (xs.zipIdx skipped).filterMap (fun (_, i) => ys[i]?.bind f) =
      ((ys.drop skipped).take xs.length).filterMap f := by
  induction xs generalizing skipped with
  | nil => simp
  | cons x rest ih =>
      rw [List.zipIdx_cons, List.length_cons]
      by_cases inside : skipped < ys.length
      · rw [List.drop_eq_getElem_cons inside, List.take_succ_cons]
        simp only [List.filterMap_cons, List.getElem?_eq_getElem inside, Option.bind_some, ih]
      · have past : ys.length ≤ skipped := Nat.le_of_not_lt inside
        have here : ys.drop skipped = [] := List.drop_eq_nil_of_le past
        have next : ys.drop (skipped + 1) = [] := List.drop_eq_nil_of_le (Nat.le_succ_of_le past)
        simp [ih, past, here, next]

end Lists

/-! ## Positional arguments -/

theorem length_bindPositional {parameters : List Parameter} {arguments : List NodeRef}
    {bindings : List Binding} (h : bindPositional parameters arguments = some bindings) :
    bindings.length = parameters.length := by
  fun_induction bindPositional parameters arguments generalizing bindings with
  | case1 | case3 | case4 => cases h; rfl
  | case2 | case5 | case6 => cases h
  | case7 first second rest argument arguments ih =>
      obtain ⟨later, bound, rfl⟩ := Option.map_eq_some_iff.mp h
      simp [ih bound]

/-- A last parameter with varargs is bound to all arguments from its index on, and any other one to
    the argument at its index. -/
theorem getElem?_bindPositional {parameters : List Parameter} {arguments : List NodeRef}
    {bindings : List Binding} (h : bindPositional parameters arguments = some bindings)
    {i : Nat} {p : Parameter} {b : Binding} (hp : parameters[i]? = some p)
    (hb : bindings[i]? = some b) :
    if p.varargs ∧ i + 1 = parameters.length then b = .multiple (arguments.drop i)
    else ∃ argument, arguments[i]? = some argument ∧ b = .single argument := by
  fun_induction bindPositional parameters arguments generalizing bindings i with
  | case1 => simp at hp
  | case2 | case5 | case6 => cases h
  | case3 last arguments varargs =>
      cases h
      cases i with
      | zero =>
          cases hp
          cases hb
          simp [varargs]
      | succ i => simp at hp
  | case4 last varargs argument =>
      cases h
      cases i with
      | zero =>
          cases hp
          cases hb
          simp [varargs]
      | succ i => simp at hp
  | case7 first second rest argument arguments ih =>
      obtain ⟨later, bound, rfl⟩ := Option.map_eq_some_iff.mp h
      cases i with
      | zero =>
          cases hp
          cases hb
          simp
      | succ i => simpa using ih bound hp hb

/-- Arguments that are left over go to a last parameter with varargs. -/
theorem surplus_bindPositional {parameters : List Parameter} {arguments : List NodeRef}
    {bindings : List Binding} (h : bindPositional parameters arguments = some bindings)
    (more : parameters.length < arguments.length) :
    ∃ last, parameters.getLast? = some last ∧ last.varargs := by
  fun_induction bindPositional parameters arguments generalizing bindings with
  | case1 => simp at more
  | case2 | case5 | case6 => cases h
  | case3 last arguments varargs => exact ⟨last, rfl, varargs⟩
  | case4 => simp at more
  | case7 first second rest argument arguments ih =>
      obtain ⟨later, bound, rfl⟩ := Option.map_eq_some_iff.mp h
      obtain ⟨last, found, varargs⟩ := ih bound (by simpa using more)
      exact ⟨last, by simpa using found, varargs⟩

/-- Parameters that admit their bindings are bound to nodes only. -/
theorem live_of_bindPositional {parameters : List Parameter} {arguments : List NodeRef}
    {bindings : List Binding} {a : Arena}
    (h : bindPositional parameters arguments = some bindings)
    (fit : ∀ p b, (p, b) ∈ parameters.zip bindings → ∀ argument ∈ b.arguments,
      a.isNamedArgument argument ∨ p.type.accepts a argument) :
    ∀ argument ∈ arguments, (a.node? argument).isSome := by
  intro argument member
  rw [← flatMap_bindPositional h] at member
  obtain ⟨b, listed, inside⟩ := List.mem_flatMap.mp member
  obtain ⟨i, lt, rfl⟩ := List.mem_iff_getElem.mp listed
  have length := length_bindPositional h
  have pair : (parameters[i], bindings[i]) ∈ parameters.zip bindings :=
    List.mem_iff_getElem.mpr ⟨i, by simp; omega, by simp⟩
  rcases fit _ _ pair argument inside with named | accepted
  · exact Option.isSome_of_any named
  · exact Option.isSome_of_any accepted

/-! ## Hints by index -/

/-- The hint for a parameter in front of an argument, if the parameter has a name and the argument
    is there. The hint for a last parameter with varargs shows that more may follow. -/
def Parameter.hintBefore? (p : Parameter) (last : Bool) (a : Arena) (argument : Option NodeRef) :
    Option ParameterHint :=
  p.name.bind fun name => argument.bind fun r => (a.node? r).map fun n =>
    ⟨if p.varargs && last then "..." ++ name else name, n.start⟩

/-- Parameters stand side by side with arguments, and each shows its hint at the argument of its
    own index. Only a last parameter with varargs may be without an argument, or with several. -/
structure LinedUp (a : Arena) (parameters : List Parameter) (arguments : List NodeRef)
    (hints : List ParameterHint) : Prop where
  live : ∀ argument ∈ arguments, (a.node? argument).isSome
  enough : ∀ i p, parameters[i]? = some p →
    i < arguments.length ∨ p.varargs ∧ i + 1 = parameters.length
  surplus : parameters.length < arguments.length →
    ∃ last, parameters.getLast? = some last ∧ last.varargs
  shown : hints = parameters.zipIdx.filterMap fun (p, i) =>
    p.hintBefore? (i + 1 == parameters.length) a arguments[i]?
  each : (∀ p ∈ parameters, p.name.isSome) → hints.map ParameterHint.offset =
    (arguments.take parameters.length).filterMap fun r => (a.node? r).map Node.start

namespace Binding

variable {a : Arena} {name : String}

theorem hint?_single (r : NodeRef) :
    (single r).hint? name a = (a.node? r).map fun n => ⟨name, n.start⟩ := by
  simp [hint?_eq_anchor, anchor?, capturesNamed, hintText, single]

theorem hint?_multiple {arguments : List NodeRef}
    (unnamed : ∀ r ∈ arguments, a.isNamedArgument r = false) :
    (multiple arguments).hint? name a =
      arguments.head?.bind fun r => (a.node? r).map fun n => ⟨"..." ++ name, n.start⟩ := by
  have clear : (multiple arguments).capturesNamed a = false := by
    simpa [capturesNamed, multiple] using unnamed
  rw [hint?_eq_anchor, anchor?, clear]
  rfl

end Binding

/-- The hint of a binding, if its parameter has a name. -/
def Binding.hintFor? (a : Arena) (entry : Parameter × Binding) : Option ParameterHint :=
  entry.1.name.bind fun name => entry.2.hint? name a

theorem hintFor?_bindPositional {parameters : List Parameter} {arguments : List NodeRef}
    {bindings : List Binding} {a : Arena}
    (h : bindPositional parameters arguments = some bindings)
    (unnamed : ∀ r ∈ arguments, a.isNamedArgument r = false) {i : Nat} {p : Parameter} {b : Binding}
    (hp : parameters[i]? = some p) (hb : bindings[i]? = some b) :
    Binding.hintFor? a (p, b) = p.hintBefore? (i + 1 == parameters.length) a arguments[i]? := by
  have shape := getElem?_bindPositional h hp hb
  unfold Binding.hintFor? Parameter.hintBefore?
  refine congrArg p.name.bind (funext fun name => ?_)
  split at shape
  · next spread =>
      obtain ⟨varargs, last⟩ := spread
      rw [shape, Binding.hint?_multiple fun r member => unnamed r (List.mem_of_mem_drop member),
        List.head?_drop]
      simp [varargs, last]
  · next single =>
      obtain ⟨argument, found, rfl⟩ := shape
      have plain : (p.varargs && i + 1 == parameters.length) = false := by simpa using single
      rw [Binding.hint?_single, found, plain]
      rfl

/-- Positional arguments that were bound and fit line up with the parameters. -/
theorem linedUp_bindPositional {parameters : List Parameter} {arguments : List NodeRef}
    {bindings : List Binding} {a : Arena}
    (h : bindPositional parameters arguments = some bindings)
    (fit : ∀ p b, (p, b) ∈ parameters.zip bindings → ∀ argument ∈ b.arguments,
      a.isNamedArgument argument ∨ p.type.accepts a argument)
    (unnamed : ∀ r ∈ arguments, a.isNamedArgument r = false) :
    LinedUp a parameters arguments ((parameters.zip bindings).filterMap (Binding.hintFor? a)) := by
  have length := length_bindPositional h
  have hints : (parameters.zip bindings).filterMap (Binding.hintFor? a) =
      parameters.zipIdx.filterMap fun (p, i) =>
        p.hintBefore? (i + 1 == parameters.length) a arguments[i]? :=
    filterMap_zip_zipIdx length fun i p b hp hb => hintFor?_bindPositional h unnamed hp hb
  refine ⟨live_of_bindPositional h fit, ?_, surplus_bindPositional h, hints, ?_⟩
  · intro i p hp
    obtain ⟨inside, -⟩ := List.getElem?_eq_some_iff.mp hp
    have hb : bindings[i]? = some bindings[i] := List.getElem?_eq_getElem (by omega)
    have shape := getElem?_bindPositional h hp hb
    split at shape
    · next spread => exact .inr spread
    · obtain ⟨argument, found, -⟩ := shape
      exact .inl (List.getElem?_eq_some_iff.mp found).1
  · intro named
    rw [hints, List.map_filterMap]
    refine Eq.trans ?_ (filterMap_zipIdx_getElem? _ parameters arguments 0)
    refine List.filterMap_congr fun (p, i) listed => ?_
    obtain ⟨name, known⟩ :=
      Option.isSome_iff_exists.mp (named p (List.fst_mem_of_mem_zipIdx listed))
    simp [Parameter.hintBefore?, known, Option.map_bind, Function.comp_def]

/-! ## Distinct names -/

namespace NamedBindings

theorem insert_new {bindings : NamedBindings} {name : String} (b : Binding)
    (new : name ∉ bindings.map Prod.fst) : bindings.insert name b = bindings ++ [(name, b)] := by
  induction bindings with
  | nil => rfl
  | cons entry rest ih =>
      obtain ⟨key, old⟩ := entry
      rw [List.map_cons, List.mem_cons, not_or] at new
      rw [insert, if_neg (Ne.symm new.1), ih new.2, List.cons_append]

/-- New names are entered behind the names that are there. -/
theorem foldl_enter_distinct {entries : List (Parameter × Binding)} {named : NamedBindings}
    (distinct : (named.map Prod.fst ++ entries.filterMap (·.1.name)).Nodup) :
    entries.foldl enter named = named ++ entries.filterMap fun (p, b) => p.name.map (·, b) := by
  induction entries generalizing named with
  | nil => simp
  | cons entry rest ih =>
      obtain ⟨p, b⟩ := entry
      cases known : p.name with
      | none =>
          simp only [List.filterMap_cons, known] at distinct
          simp [enter, known, ih distinct]
      | some name =>
          simp only [List.filterMap_cons, known] at distinct
          have new : name ∉ named.map Prod.fst := fun member =>
            (List.nodup_append.mp distinct).2.2 name member name List.mem_cons_self rfl
          have entered : named.insert name b = named ++ [(name, b)] := insert_new b new
          have later : ((named ++ [(name, b)]).map Prod.fst ++
              rest.filterMap (·.1.name)).Nodup := by simpa using distinct
          simp [enter, known, entered, ih later]

/-- Under distinct names the bindings are in the order of the parameters. -/
theorem ofSignature_distinct {signature : Signature} {bindings : List Binding}
    (length : bindings.length = signature.length)
    (distinct : (signature.filterMap Parameter.name).Nodup) :
    ofSignature signature bindings =
      (signature.zip bindings).filterMap fun (p, b) => p.name.map (·, b) := by
  have names : (signature.zip bindings).filterMap (Parameter.name ∘ Prod.fst) =
      signature.filterMap Parameter.name := by
    rw [← List.filterMap_map, List.map_fst_zip (Nat.le_of_eq length.symm)]
  have entered := @foldl_enter_distinct (signature.zip bindings) []
  exact entered (by rw [List.map_nil, List.nil_append]; exact names ▸ distinct)

end NamedBindings

namespace Table

variable {t : Table} {a : Arena} {r : NodeRef} {c : Call} {id : MethodId} {m : Method}
  {bindings : List Binding}

/-- A call that resolves is analysed. -/
theorem analysed_of_resolve? (resolved : t.resolve? a r = some id) (call : a.callAt? r = some c)
    (found : t.method? id = some m) (bound : bindArguments m.parameters a c = some bindings) :
    t.Analysed a r c m bindings where
  call := call
  resolved := ⟨id, resolved, found⟩
  bound := bound
  hints := by
    have signature : t.host.signature? a r = some m.parameters := by
      simp [host, signature?, resolved, found]
    have bindings : t.host.bindings? m.parameters a r = some bindings := by
      simp [host, call, bound]
    rw [Host.hints, if_pos (Arena.isCall_of_callAt? call), Host.callHints?, signature,
      Option.bind_eq_bind, Option.bind_some, bindings]
    rfl

/-- Under distinct names the hints are those of the bindings, parameter by parameter. -/
theorem Analysed.hints_distinct (h : t.Analysed a r c m bindings)
    (length : bindings.length = m.parameters.length)
    (distinct : (m.parameters.filterMap Parameter.name).Nodup) :
    t.host.hints a r = (m.parameters.zip bindings).filterMap (Binding.hintFor? a) := by
  rw [h.hints, NamedBindings.ofSignature_distinct length distinct, List.filterMap_filterMap]
  refine List.filterMap_congr fun (p, b) _ => ?_
  cases known : p.name <;> simp [Binding.hintFor?, known]

/-- The hints of a call that resolves to a method with distinct parameter names, and that has no
    named argument among its closures: the parameters and the positional arguments stand side by
    side. When there are named arguments, the first parameter takes them and shows nothing. -/
theorem hints_lined_up (t : Table) (a : Arena) (r : NodeRef) (c : Call) (id : MethodId) (m : Method)
    (call : a.callAt? r = some c) (resolved : t.resolve? a r = some id)
    (found : t.method? id = some m) (distinct : (m.parameters.filterMap Parameter.name).Nodup)
    (unnamed : ∀ closure ∈ c.closures, a.isNamedArgument closure = false) :
    LinedUp a (m.parameters.drop (if c.namedArguments a = [] then 0 else 1))
      (c.positionalArguments a) (t.host.hints a r) := by
  obtain ⟨bindings, bound, fit⟩ := fits_of_resolve? resolved call found
  have analysed := analysed_of_resolve? resolved call found bound
  have positional : ∀ r ∈ c.positionalArguments a, a.isNamedArgument r = false := by
    intro r member
    rcases List.mem_append.mp member with inside | behind
    · simpa using (List.mem_filter.mp inside).2
    · exact unnamed r behind
  rcases bindArguments_cases bound with
    ⟨none, rest⟩ | ⟨some, first, others, later, split, rfl, rest⟩
  · rw [if_pos none, List.drop_zero, analysed.hints_distinct (length_bindPositional rest) distinct]
    exact linedUp_bindPositional rest fit positional
  · rw [if_neg some]
    have every : ∀ r ∈ c.namedArguments a, a.isNamedArgument r = true := fun r member =>
      (List.mem_filter.mp member).2
    have silent : Binding.hintFor? a (first, .multiple (c.namedArguments a)) = .none := by
      unfold Binding.hintFor?
      cases first.name with
      | none => rfl
      | some name => simp [Binding.hint?_eq_anchor, anchor?_named some every]
    have length : (.multiple (c.namedArguments a) :: later : List Binding).length =
        m.parameters.length := by
      rw [split, List.length_cons, length_bindPositional rest, List.length_cons]
    rw [analysed.hints_distinct length distinct, split, List.zip_cons_cons, List.filterMap_cons,
      silent, List.drop_one, List.tail_cons]
    refine linedUp_bindPositional rest (fun p b pair => fit p b ?_) positional
    rw [split, List.zip_cons_cons]
    exact List.mem_cons_of_mem _ pair

/-- A method with a map in front and varargs behind. -/
def gathering : Method :=
  ⟨"f", none, [⟨some "options", .map, false⟩, ⟨some "x", .string, false⟩,
    ⟨some "rest", .object, true⟩], .regular⟩

/-- A named argument, two positional ones and a closure behind the call line up with it. -/
theorem gathering_lined_up :
    let a := (SyntaxTree.ofItems [.statement (.trailing
      (.call "f" [.named "k" (.number "1"), .string "x", .number "2"]) [])]).arena
    let c : Call := ⟨some 1, [some 4, some 5, some 6], [some 8]⟩
    a.callAt? (some 7) = some c ∧
      LinedUp a (gathering.parameters.drop (if c.namedArguments a = [] then 0 else 1))
        (c.positionalArguments a) ((Table.empty.addMethod gathering).host.hints a (some 7)) :=
  ⟨by decide +kernel, hints_lined_up (.addMethod .empty gathering) _ (some 7) _ 0 gathering
    (by decide +kernel) (by decide +kernel) rfl (by decide +kernel) (by decide +kernel)⟩

end Table

end ParameterHints
