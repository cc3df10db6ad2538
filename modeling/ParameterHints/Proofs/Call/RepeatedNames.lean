import Mathlib.Data.List.Induction
import ParameterHints.Proofs.Call.Anchors
import ParameterHints.Proofs.FirstOccurrence
import ParameterHints.Syntax.Builder

/-! # Repeated parameter names

A host may answer with any signature and any bindings. What is shown then depends on the named
parameters that have a binding, one entry for each: every name is shown where it first occurs, by
what it is bound to where it last occurs. It takes the last binding even if that shows nothing.
-/

namespace ParameterHints

namespace NamedBindings

/-- Parameters side by side with bindings, as far as both go, without the unnamed ones. A name may
    occur any number of times. -/
def entries (signature : Signature) (bindings : List Binding) : List (String × Binding) :=
  (signature.zip bindings).filterMap fun (p, b) => p.name.map (·, b)

/-- The names of entries, each where it first occurs. -/
def firstNames (entries : List (String × Binding)) : List String :=
  (entries.map Prod.fst).eraseDups

/-- What a name is bound to where it last occurs. -/
def last? (entries : List (String × Binding)) (name : String) : Option Binding :=
  entries.reverse.lookup name

/-- All entries, one after another. -/
def ofEntries (entries : List (String × Binding)) : NamedBindings :=
  entries.foldl (fun named (name, b) => named.insert name b) []

variable {named : NamedBindings}

theorem foldl_enter_eq (pairs : List (Parameter × Binding)) (named : NamedBindings) :
    pairs.foldl enter named = (pairs.filterMap fun (p, b) => p.name.map (·, b)).foldl
      (fun named (name, b) => named.insert name b) named := by
  induction pairs generalizing named with
  | nil => rfl
  | cons pair rest ih =>
      obtain ⟨p, b⟩ := pair
      rw [List.foldl_cons, ih]
      cases known : p.name <;> simp [enter, known]

theorem ofSignature_eq (signature : Signature) (bindings : List Binding) :
    ofSignature signature bindings = ofEntries (entries signature bindings) :=
  foldl_enter_eq _ []

theorem ofEntries_concat (entries : List (String × Binding)) (name : String) (b : Binding) :
    ofEntries (entries ++ [(name, b)]) = (ofEntries entries).insert name b := by
  simp [ofEntries, List.foldl_append]

/-! ## Names -/

/-- A new name goes behind the others, and an old one stays where it is. -/
theorem names_insert (named : NamedBindings) (name : String) (b : Binding) :
    (named.insert name b).map Prod.fst =
      if name ∈ named.map Prod.fst then named.map Prod.fst else named.map Prod.fst ++ [name] := by
  induction named with
  | nil => rfl
  | cons entry rest ih =>
      obtain ⟨key, old⟩ := entry
      by_cases same : key = name
      · simp [insert, same]
      · have other : ¬ name = key := fun eq => same eq.symm
        simp only [insert, if_neg same, List.map_cons, ih, List.mem_cons, other, false_or]
        split <;> rfl

theorem names_ofEntries (entries : List (String × Binding)) :
    (ofEntries entries).map Prod.fst = firstNames entries := by
  -- The entry that was bound last is the one at the end.
  induction entries using List.reverseRecOn with
  | nil => rfl
  | append_singleton front entry ih =>
      obtain ⟨name, b⟩ := entry
      rw [ofEntries_concat, names_insert, ih, firstNames, firstNames, List.map_append, List.map_cons,
        List.map_nil, eraseDups_concat]
      simp only [List.mem_eraseDups]

theorem nodup_firstNames (entries : List (String × Binding)) : (firstNames entries).Nodup :=
  nodup_eraseDups _

/-! ## Values -/

theorem lookup_entry (key name : String) (b : Binding) (rest : List (String × Binding)) :
    List.lookup name ((key, b) :: rest) = if name = key then some b else rest.lookup name := by
  rw [List.lookup_cons]
  by_cases same : name = key
  · simp [same]
  · rw [beq_false_of_ne same, if_neg same]

/-- Binding a name changes what that name is bound to and nothing else. -/
theorem lookup_insert (named : NamedBindings) (name other : String) (b : Binding) :
    (named.insert name b).lookup other = if other = name then some b else named.lookup other := by
  induction named with
  | nil => rw [insert, lookup_entry]
  | cons entry rest ih =>
      obtain ⟨key, old⟩ := entry
      by_cases same : key = name
      · subst same
        simp only [insert, if_true, lookup_entry]
        split <;> rfl
      · simp only [insert, if_neg same, lookup_entry, ih]
        by_cases here : other = key <;> simp [here, same]

theorem lookup_ofEntries (entries : List (String × Binding)) (name : String) :
    (ofEntries entries).lookup name = last? entries name := by
  induction entries using List.reverseRecOn with
  | nil => rfl
  | append_singleton front entry ih =>
      obtain ⟨key, b⟩ := entry
      rw [ofEntries_concat, lookup_insert, ih, last?, last?, List.reverse_concat, lookup_entry]

/-- Bindings of distinct names are told by their names and by what each is bound to. -/
theorem filterMap_lookup (h : (named.map Prod.fst).Nodup) :
    (named.map Prod.fst).filterMap (fun name => (named.lookup name).map (name, ·)) = named := by
  induction named with
  | nil => rfl
  | cons entry rest ih =>
      obtain ⟨key, b⟩ := entry
      obtain ⟨new, distinct⟩ := List.nodup_cons.mp h
      have behind : (rest.map Prod.fst).filterMap
          (fun name => (List.lookup name ((key, b) :: rest)).map (name, ·)) = rest := by
        refine Eq.trans (List.filterMap_congr fun name member => ?_) (ih distinct)
        have other : name ≠ key := fun same => new (same ▸ member)
        rw [lookup_entry, if_neg other]
      rw [List.map_cons, List.filterMap_cons, lookup_entry, if_pos rfl, behind]
      rfl

/-- Every name is listed where it first occurs, with what it is bound to where it last occurs. -/
theorem ofEntries_eq (entries : List (String × Binding)) :
    ofEntries entries =
      (firstNames entries).filterMap fun name => (last? entries name).map (name, ·) := by
  have distinct : ((ofEntries entries).map Prod.fst).Nodup := by
    rw [names_ofEntries]
    exact nodup_firstNames entries
  have listed := filterMap_lookup distinct
  simp only [names_ofEntries, lookup_ofEntries] at listed
  exact listed.symm

end NamedBindings

namespace Binding

/-- A binding shows a hint for a name: it aggregates no named argument, and the hint stands in front
    of its first argument, which is a node. -/
structure Shows (b : Binding) (a : Arena) (name : String) (hint : ParameterHint) : Prop where
  unnamed : b.aggregating → ∀ r ∈ b.arguments, ∀ n, a.node? r = some n → n.kind ≠ .namedArgument
  first : ∃ r n, b.arguments.head? = some r ∧ a.node? r = some n ∧ hint.offset = n.start
  text : hint.text = (if b.aggregating then "..." else "") ++ name

theorem capturesNamed_eq_false_iff {b : Binding} {a : Arena} :
    b.capturesNamed a = false ↔
      (b.aggregating → ∀ r ∈ b.arguments, ∀ n, a.node? r = some n → n.kind ≠ .namedArgument) := by
  simp [capturesNamed, Arena.isNamedArgument, Option.any_eq_false]

theorem hint?_eq_some_iff {b : Binding} {a : Arena} {name : String} {hint : ParameterHint} :
    b.hint? name a = some hint ↔ b.Shows a name hint := by
  have shape : b.hintText name = (if b.aggregating then "..." else "") ++ name := by
    cases h : b.aggregating <;> simp [hintText, h]
  constructor
  · intro h
    rw [hint?_eq_anchor] at h
    obtain ⟨r, anchored, h⟩ := Option.bind_eq_some_iff.mp h
    obtain ⟨n, here, rfl⟩ := Option.map_eq_some_iff.mp h
    refine ⟨capturesNamed_eq_false_iff.mp ?_, ⟨r, n, head_of_anchor? anchored, here, rfl⟩, shape⟩
    by_contra captured
    simp [anchor?, captured] at anchored
  · rintro ⟨unnamed, ⟨r, n, first, here, offset⟩, text⟩
    have made : hint = ⟨b.hintText name, n.start⟩ := by rw [shape, ← text, ← offset]
    simp [hint?_eq_anchor, anchor?, capturesNamed_eq_false_iff.mpr unnamed, first, here, made]

end Binding

namespace Host

variable {h : Host} {a : Arena} {r : NodeRef} {n : Node} {signature : Signature}
  {bindings : List Binding}

/-- The hints of a call are those of the named bindings that the host answers with. -/
theorem hints_of_answers (here : a.node? r = some n) (call : n.kind = .call)
    (known : h.signature? a r = some signature)
    (bound : h.bindings? signature a r = some bindings) :
    h.hints a r =
      (NamedBindings.ofSignature signature bindings).filterMap fun (name, b) => b.hint? name a := by
  have isCall : (a.node? r).any (·.kind == .call) := by simp [here, call]
  rw [hints, if_pos isCall, callHints?, known, Option.bind_eq_bind, Option.bind_some, bound]
  rfl

/-- Whatever a host answers about a call, each distinct name of a parameter that has a binding is
    looked at once, in the order in which the names first occur, and shows what the binding of its
    last occurrence shows. -/
theorem hints_of_repeated_names (h : Host) (a : Arena) (r : NodeRef) (n : Node)
    (signature : Signature) (bindings : List Binding) (here : a.node? r = some n)
    (call : n.kind = .call) (known : h.signature? a r = some signature)
    (bound : h.bindings? signature a r = some bindings) :
    let entries := NamedBindings.entries signature bindings
    (NamedBindings.firstNames entries).Nodup ∧
      ∃ shown : String → Option ParameterHint,
        h.hints a r = (NamedBindings.firstNames entries).filterMap shown ∧
        ∀ name hint, shown name = some hint ↔
          ∃ b, NamedBindings.last? entries name = some b ∧ b.Shows a name hint := by
  intro entries
  refine ⟨NamedBindings.nodup_firstNames entries,
    fun name => (NamedBindings.last? entries name).bind (·.hint? name a), ?_, ?_⟩
  · rw [hints_of_answers here call known bound, NamedBindings.ofSignature_eq,
      NamedBindings.ofEntries_eq, List.filterMap_filterMap]
    refine List.filterMap_congr fun name _ => ?_
    rw [Option.bind_map]
    rfl
  · intro name hint
    rw [Option.bind_eq_some_iff]
    exact exists_congr fun b => and_congr_right' Binding.hint?_eq_some_iff

/-- A host that answers the same about every call. -/
def constant (signature : Signature) (bindings : List Binding) : Host where
  resolve? _ _ := none
  method? _ := none
  class? _ := none
  signature? _ _ := some signature
  bindings? _ _ _ := some bindings

/-- The last binding of `x` shows, that of `y` captures a named argument, that of `z` dangles, and
    there is none for the second parameter `z`. -/
theorem hints_of_constant :
    let a := (SyntaxTree.ofItems
      [.statement (.call "f" [.number "1", .named "k" (.number "2"), .number "3"])]).arena
    let signature : Signature := [⟨some "x", .object, false⟩, ⟨some "y", .object, false⟩,
      ⟨some "x", .object, true⟩, ⟨none, .object, false⟩, ⟨some "y", .map, false⟩,
      ⟨some "z", .object, false⟩, ⟨some "z", .object, false⟩]
    let bindings : List Binding := [.single (some 2), .single (some 6), .multiple [some 6, some 2],
      .single (some 2), .multiple [some 2, some 5], .single (some 99)]
    let entries := NamedBindings.entries signature bindings
    let h := constant signature bindings
    NamedBindings.firstNames entries = ["x", "y", "z"] ∧ h.hints a (some 7) = [⟨"...x", 11⟩] ∧
      (NamedBindings.firstNames entries).Nodup ∧
      ∃ shown : String → Option ParameterHint,
        h.hints a (some 7) = (NamedBindings.firstNames entries).filterMap shown ∧
        ∀ name hint, shown name = some hint ↔
          ∃ b, NamedBindings.last? entries name = some b ∧ b.Shows a name hint := by
  intro a signature bindings entries h
  have here : a.node? (some 7) = some ⟨.call, 0, 13, some 0⟩ := by decide +kernel
  exact ⟨by decide +kernel, by decide +kernel,
    hints_of_repeated_names h a (some 7) _ signature bindings here rfl rfl rfl⟩

end Host

end ParameterHints
