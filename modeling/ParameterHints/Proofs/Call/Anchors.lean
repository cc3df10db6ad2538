import Mathlib.Data.List.Perm.Subperm
import ParameterHints.Call.Hint

/-! # Anchors of hints

The anchor of a binding is the argument whose start the hint of its parameter is put at. The
anchors of a call are arguments without a name, and no argument is the anchor of two parameters,
even of two that have one name.
-/

namespace ParameterHints

namespace Binding

/-- The argument that the hint for a parameter stands in front of. -/
def anchor? (b : Binding) (a : Arena) : Option NodeRef :=
  if b.capturesNamed a then none else b.arguments.head?

theorem hint?_eq_anchor (b : Binding) (name : String) (a : Arena) :
    b.hint? name a =
      (b.anchor? a).bind fun r => (a.node? r).map fun n => ⟨b.hintText name, n.start⟩ := by
  unfold hint? anchor?
  split
  · rfl
  · cases b.arguments.head? with
    | none => rfl
    | some r => cases here : a.node? r <;> simp [here]

theorem head_of_anchor? {b : Binding} {a : Arena} {r : NodeRef} (h : b.anchor? a = some r) :
    b.arguments.head? = some r := by
  unfold anchor? at h
  split at h
  · cases h
  · exact h

end Binding

theorem subperm_filterMap {α β : Type} (f : α → Option β) {first second : List α}
    (h : first.Subperm second) : (first.filterMap f).Subperm (second.filterMap f) := by
  obtain ⟨middle, perm, sublist⟩ := h
  exact ⟨middle.filterMap f, perm.filterMap f, sublist.filterMap f⟩

/-! ## Bindings -/

/-- Every parameter is bound to its own stretch of the arguments. -/
theorem flatMap_bindPositional {parameters : List Parameter} {arguments : List NodeRef}
    {bindings : List Binding} (h : bindPositional parameters arguments = some bindings) :
    bindings.flatMap Binding.arguments = arguments := by
  fun_induction bindPositional parameters arguments generalizing bindings with
  | case1 =>
      cases h
      rfl
  | case2 => cases h
  | case3 last arguments varargs =>
      cases h
      simp [Binding.multiple]
  | case4 last varargs argument =>
      cases h
      simp [Binding.single]
  | case5 => cases h
  | case6 => cases h
  | case7 first second rest argument arguments ih =>
      obtain ⟨later, bound, rfl⟩ := Option.map_eq_some_iff.mp h
      rw [List.flatMap_cons, ih bound]
      rfl

theorem anchors_sublist (bindings : List Binding) (a : Arena) :
    (bindings.filterMap (·.anchor? a)).Sublist (bindings.flatMap Binding.arguments) := by
  induction bindings with
  | nil => exact .slnil
  | cons b rest ih =>
      rw [List.flatMap_cons, List.filterMap_cons]
      cases anchored : b.anchor? a with
      | none => exact ih.trans (List.sublist_append_right _ _)
      | some r =>
          obtain ⟨others, split⟩ := List.head?_eq_some_iff.mp (Binding.head_of_anchor? anchored)
          rw [split]
          exact (ih.trans (List.sublist_append_right others _)).cons_cons r

/-- The binding that collects the named arguments has no anchor. -/
theorem anchor?_named {a : Arena} {named : List NodeRef} (nonempty : named ≠ [])
    (every : ∀ r ∈ named, a.isNamedArgument r = true) :
    (Binding.multiple named).anchor? a = none := by
  cases named with
  | nil => exact absurd rfl nonempty
  | cons r rest =>
      have first := every r List.mem_cons_self
      simp [Binding.anchor?, Binding.capturesNamed, Binding.multiple, first]

/-- The named arguments of a call go to a map in front, if there are any, and the positional ones to
    the other parameters. -/
theorem bindArguments_cases {parameters : List Parameter} {a : Arena} {c : Call}
    {bindings : List Binding} (h : bindArguments parameters a c = some bindings) :
    (c.namedArguments a = [] ∧
      bindPositional parameters (c.positionalArguments a) = some bindings) ∨
    (c.namedArguments a ≠ [] ∧ ∃ first rest others, parameters = first :: rest ∧
      bindings = .multiple (c.namedArguments a) :: others ∧
        bindPositional rest (c.positionalArguments a) = some others) := by
  unfold bindArguments at h
  split at h
  · next none => exact .inl ⟨none, h⟩
  · cases h
  · next first rest nonempty =>
      split at h
      · obtain ⟨others, bound, rfl⟩ := Option.map_eq_some_iff.mp h
        exact .inr ⟨by simpa using nonempty, first, rest, others, rfl, rfl, bound⟩
      · cases h

/-- No positional argument is the anchor of two bindings, and no other argument is one. -/
theorem anchors_bindArguments {parameters : List Parameter} {a : Arena} {c : Call}
    {bindings : List Binding} (h : bindArguments parameters a c = some bindings) :
    (bindings.filterMap (·.anchor? a)).Sublist (c.positionalArguments a) := by
  rcases bindArguments_cases h with ⟨-, bound⟩ | ⟨some, _, _, others, -, rfl, bound⟩
  · rw [← flatMap_bindPositional bound]
    exact anchors_sublist bindings a
  · have every : ∀ r ∈ c.namedArguments a, a.isNamedArgument r = true := fun r member =>
      (List.mem_filter.mp member).2
    rw [List.filterMap_cons, anchor?_named some every, ← flatMap_bindPositional bound]
    exact anchors_sublist others a

/-! ## Names -/

namespace NamedBindings

variable {bindings : NamedBindings} {name : String} {b : Binding}

theorem values_insert (bindings : NamedBindings) (name : String) (b : Binding) :
    ((bindings.insert name b).map Prod.snd).Subperm (b :: bindings.map Prod.snd) := by
  induction bindings with
  | nil => exact .refl _
  | cons entry rest ih =>
      obtain ⟨key, old⟩ := entry
      rw [insert]
      split
      · exact ((List.sublist_cons_self old _).cons_cons b).subperm
      · exact ((List.subperm_cons old).mpr ih).trans (List.Perm.swap b old _).subperm

theorem mem_insert {key : String} {value : Binding}
    (h : (key, value) ∈ bindings.insert name b) :
    key = name ∧ value = b ∨ (key, value) ∈ bindings := by
  induction bindings with
  | nil => simpa [insert] using h
  | cons entry rest ih =>
      obtain ⟨first, old⟩ := entry
      rw [insert] at h
      split at h
      · next same =>
          rcases List.mem_cons.mp h with here | later
          · cases here
            exact .inl ⟨same, rfl⟩
          · exact .inr (List.mem_cons_of_mem _ later)
      · rcases List.mem_cons.mp h with here | later
        · exact .inr (here ▸ List.mem_cons_self)
        · exact (ih later).imp_right (List.mem_cons_of_mem _)

/-- One step of `ofSignature`. -/
def enter (named : NamedBindings) (entry : Parameter × Binding) : NamedBindings :=
  match entry.1.name with
  | some name => named.insert name entry.2
  | none => named

theorem values_foldl (entries : List (Parameter × Binding)) (named : NamedBindings) :
    ((entries.foldl enter named).map Prod.snd).Subperm
      (named.map Prod.snd ++ entries.map Prod.snd) := by
  induction entries generalizing named with
  | nil =>
      rw [List.foldl_nil, List.map_nil, List.append_nil]
  | cons entry rest ih =>
      obtain ⟨p, b⟩ := entry
      refine (ih _).trans ?_
      rw [List.map_cons, enter]
      cases p.name with
      | none => exact ((List.sublist_cons_self b _).append_left _).subperm
      | some name =>
          refine ((List.subperm_append_right _).mpr (values_insert named name b)).trans ?_
          exact (List.perm_middle.symm).subperm

/-- Among the named bindings each binding of a call is there once at most. -/
theorem values_ofSignature (signature : Signature) (bindings : List Binding) :
    ((ofSignature signature bindings).map Prod.snd).Subperm bindings := by
  refine (values_foldl _ []).trans (List.Sublist.subperm ?_)
  induction signature generalizing bindings with
  | nil => exact List.nil_sublist _
  | cons p rest ih =>
      cases bindings with
      | nil => exact .slnil
      | cons b others => exact (ih others).cons_cons b

theorem mem_foldl {entries : List (Parameter × Binding)} {named : NamedBindings}
    (h : (name, b) ∈ entries.foldl enter named) :
    (name, b) ∈ named ∨ ∃ p, (p, b) ∈ entries ∧ p.name = some name := by
  induction entries generalizing named with
  | nil => exact .inl h
  | cons entry rest ih =>
      obtain ⟨p, value⟩ := entry
      rcases ih h with early | ⟨q, later, named⟩
      · rw [enter] at early
        split at early
        · next key here =>
            rcases mem_insert early with ⟨rfl, rfl⟩ | old
            · exact .inr ⟨p, List.mem_cons_self, here⟩
            · exact .inl old
        · exact .inl early
      · exact .inr ⟨q, List.mem_cons_of_mem _ later, named⟩

/-- A named binding is that of a parameter with the name. -/
theorem mem_ofSignature {signature : Signature} {bindings : List Binding}
    (h : (name, b) ∈ ofSignature signature bindings) :
    ∃ p, (p, b) ∈ signature.zip bindings ∧ p.name = some name :=
  (mem_foldl h).resolve_left (by simp)

end NamedBindings

/-! ## Hints of a call -/

namespace Table

/-- A call with hints means one method, and its arguments are bound to the parameters of it. -/
structure Analysed (t : Table) (a : Arena) (r : NodeRef) (c : Call) (m : Method)
    (bindings : List Binding) : Prop where
  call : a.callAt? r = some c
  resolved : ∃ id, t.resolve? a r = some id ∧ t.method? id = some m
  bound : bindArguments m.parameters a c = some bindings
  hints : t.host.hints a r =
    (NamedBindings.ofSignature m.parameters bindings).filterMap fun (name, b) => b.hint? name a

theorem hints_host (t : Table) (a : Arena) (r : NodeRef) :
    t.host.hints a r = [] ∨ ∃ c m bindings, t.Analysed a r c m bindings := by
  by_cases isCall : (a.node? r).any (·.kind == .call)
  · cases hints : t.host.callHints? a r with
    | none =>
        refine .inl ?_
        rw [Host.hints, if_pos isCall, hints]
        rfl
    | some found =>
        have listed : t.host.hints a r = found := by
          rw [Host.hints, if_pos isCall, hints]
          rfl
        rw [Host.callHints?] at hints
        obtain ⟨signature, known, rest⟩ := Option.bind_eq_some_iff.mp hints
        obtain ⟨bindings, bound, last⟩ := Option.bind_eq_some_iff.mp rest
        obtain ⟨id, resolved, rest⟩ := Option.bind_eq_some_iff.mp known
        obtain ⟨m, method, same⟩ := Option.bind_eq_some_iff.mp rest
        obtain ⟨c, call, bound⟩ := Option.bind_eq_some_iff.mp bound
        cases same
        cases last
        exact .inr ⟨c, m, bindings, call, ⟨id, resolved, method⟩, bound, listed⟩
  · refine .inl ?_
    rw [Host.hints, if_neg isCall]

variable {t : Table} {a : Arena} {r : NodeRef} {c : Call} {m : Method} {bindings : List Binding}

namespace Analysed

/-- Each hint comes from a named parameter and stands in front of a positional argument. -/
theorem mem_hints (h : t.Analysed a r c m bindings) {hint : ParameterHint}
    (member : hint ∈ t.host.hints a r) :
    ∃ p b name argument n, (p, b) ∈ m.parameters.zip bindings ∧ p.name = some name ∧
      argument ∈ b.arguments ∧ argument ∈ c.positionalArguments a ∧
      a.node? argument = some n ∧ hint = ⟨b.hintText name, n.start⟩ := by
  rw [h.hints] at member
  obtain ⟨⟨name, b⟩, entry, made⟩ := List.mem_filterMap.mp member
  obtain ⟨p, pair, named⟩ := NamedBindings.mem_ofSignature entry
  change b.hint? name a = some hint at made
  rw [Binding.hint?_eq_anchor] at made
  obtain ⟨argument, anchored, made⟩ := Option.bind_eq_some_iff.mp made
  obtain ⟨n, here, rfl⟩ := Option.map_eq_some_iff.mp made
  have bound : argument ∈ bindings.filterMap (·.anchor? a) :=
    List.mem_filterMap.mpr ⟨b, (List.of_mem_zip pair).2, anchored⟩
  exact ⟨p, b, name, argument, n, pair, named,
    List.mem_of_mem_head? (Binding.head_of_anchor? anchored),
    (anchors_bindArguments h.bound).mem bound, here, rfl⟩

/-- The offsets of the hints are starts of positional arguments, of each at most once. -/
theorem offsets_subperm (h : t.Analysed a r c m bindings) :
    ((t.host.hints a r).map ParameterHint.offset).Subperm
      ((c.positionalArguments a).filterMap fun r => (a.node? r).map Node.start) := by
  have starts : (t.host.hints a r).map ParameterHint.offset =
      (((NamedBindings.ofSignature m.parameters bindings).map Prod.snd).filterMap
        (·.anchor? a)).filterMap fun r => (a.node? r).map Node.start := by
    rw [h.hints, List.map_filterMap, List.filterMap_map, List.filterMap_filterMap]
    refine List.filterMap_congr fun (name, b) _ => ?_
    simp only [Binding.hint?_eq_anchor, Option.map_bind, Function.comp_def, Option.map_map]
  rw [starts]
  refine subperm_filterMap _ ?_
  exact (subperm_filterMap _ (NamedBindings.values_ofSignature m.parameters bindings)).trans
    (anchors_bindArguments h.bound).subperm

end Analysed

end Table

end ParameterHints
