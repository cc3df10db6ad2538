import ParameterHints.Proofs.Inlay.Places

/-! # Origin of hints

Every hint that is drawn can be followed back to the argument that it stands in front of: through
the position to an offset, and through the walk and the bindings to a call and its parameter.
-/

namespace ParameterHints

namespace Document

/-- A hint is the one for a parameter `p` of a method `m`, and it stands in front of an argument
    that a call of `m` binds to `p`. -/
structure Labels (d : Document) (t : Table) (root : NodeRef) (range : PositionRange)
    (h : InlayHint) (r : NodeRef) (c : Call) (m : Method) (p : Parameter) (b : Binding)
    (name : String) (argument : NodeRef) (n : Node) : Prop where
  reached : d.arena.Reaches root r
  call : d.arena.callAt? r = some c
  resolved : ∃ id, t.resolve? d.arena r = some id ∧ t.method? id = some m
  allowed : ∀ info, d.provider.methodInfo? d.arena r = some info → d.denylist.denies info = false
  bound : ∃ bindings, bindArguments m.parameters d.arena c = some bindings ∧
    (p, b) ∈ m.parameters.zip bindings
  named : p.name = some name
  member : argument ∈ c.allArguments ∧ argument ∈ b.arguments
  unnamed : d.arena.isNamedArgument argument = false
  node : d.arena.node? argument = some n
  placed : d.lines.offset? h.position = some n.start
  within : (d.lines.offsets range).1 ≤ n.start ∧ n.start ≤ (d.lines.offsets range).2
  label : h.label = (if b.aggregating then "..." else "") ++ name ++ ": "
  tooltip : h.tooltip = (d.provider.methodInfo? d.arena r).map MethodInfo.fullName

variable {d : Document} {root : NodeRef} {h : InlayHint}

/-- A hint of a range was made by a call below the root that is not denied. -/
theorem mem_hints {range : PositionRange} (member : h ∈ d.hints root range) :
    ∃ r, d.arena.Reaches root r ∧
      (∀ info, d.provider.methodInfo? d.arena r = some info → d.denylist.denies info = false) ∧
      ∃ hint ∈ d.provider.hints d.arena r,
        ((d.lines.offsets range).1 ≤ hint.offset ∧ hint.offset ≤ (d.lines.offsets range).2) ∧
          h = d.inlay (d.provider.methodInfo? d.arena r) hint := by
  unfold hints at member
  split at member
  · have collected : h ∈ d.collect root (d.lines.offsets range).1 (d.lines.offsets range).2 :=
      (List.mergeSort_perm _ _).mem_iff.mp member
    obtain ⟨r, walked, made⟩ := List.mem_flatMap.mp collected
    have reached := Arena.reaches_of_mem_walkWithin (List.mem_filter.mp walked).1
    unfold callHints at made
    dsimp only at made
    split at made
    · cases made
    · next allowed =>
        obtain ⟨hint, kept, rfl⟩ := List.mem_map.mp made
        obtain ⟨there, within⟩ := List.mem_filter.mp kept
        refine ⟨r, reached, ?_, hint, there, by simpa using within, rfl⟩
        intro info known
        rw [known] at allowed
        simpa using allowed
  · cases member

end Document

theorem Binding.hintText_eq (b : Binding) (name : String) :
    b.hintText name = (if b.aggregating then "..." else "") ++ name := by
  unfold hintText
  split
  · rfl
  · exact String.empty_append.symm

namespace Arena.CallLaid

variable {a : Arena} {text : List Char} {n m : Node} {c : Call} {r : NodeRef}

/-- A closure behind a call has no name, and the other positional arguments are picked so. -/
theorem unnamed (h : a.CallLaid text n c) (member : r ∈ c.positionalArguments a)
    (here : a.node? r = some m) : a.isNamedArgument r = false := by
  rcases List.mem_append.mp member with inside | behind
  · simpa using (List.mem_filter.mp inside).2
  · simp [isNamedArgument, here, h.closures r behind m here]

theorem separated (h : a.CallLaid text n c) (member : r ∈ c.allArguments)
    (here : a.node? r = some m) : ∃ lo, Text.IsSeparated text lo m.start := by
  obtain ⟨callee, -, -, row⟩ := h.row
  obtain ⟨k, there, gap, -⟩ := row.mem (lax_separated text) member
  rw [here] at there
  cases there
  exact ⟨_, gap⟩

end Arena.CallLaid

namespace SyntaxTree

/-- Every hint over a constructed tree labels an argument of a call, and its position is that of
    the argument exactly. -/
theorem hints_label_arguments (t : Table) (list : List Item) (own : Item.allSelfContained list)
    (denylist : Denylist) (config : Config) (range : PositionRange) :
    ∀ h ∈ ((ofItems list).document t denylist config).hints (ofItems list).root range,
      ∃ r c m p b name argument n, ((ofItems list).document t denylist config).Labels t
        (ofItems list).root range h r c m p b name argument n := by
  intro h member
  have wf := wellFormed_ofItems list own
  obtain ⟨r, reached, allowed, hint, made, within, rfl⟩ := Document.mem_hints member
  have made : hint ∈ t.host.hints (ofItems list).arena r := made
  rcases t.hints_host (ofItems list).arena r with silent | ⟨c, m, bindings, analysed⟩
  · rw [silent] at made
    cases made
  · obtain ⟨p, b, name, argument, n, pair, named, first, positional, there, rfl⟩ :=
      analysed.mem_hints made
    obtain ⟨k, here, call⟩ := analysed.node
    have laid := (wf.laid r k here).call c call
    have inside := (c.positional_sublist _).mem positional
    obtain ⟨lo, separated⟩ := laid.separated inside there
    refine ⟨r, c, m, p, b, name, argument, n, ?_⟩
    rw [Document.inlay_eq]
    exact {
      reached := reached
      call := analysed.call
      resolved := analysed.resolved
      allowed := allowed
      bound := ⟨bindings, analysed.bound, pair⟩
      named := named
      member := ⟨inside, first⟩
      unnamed := laid.unnamed positional there
      node := there
      placed := LineMap.offset?_separated separated
      within := within
      label := congrArg (· ++ ": ") (b.hintText_eq name)
      tooltip := rfl }

theorem hints_crowded_labelled : Item.allSelfContained crowded ∧
    (crowdedDocument.hints (ofItems crowded).root .everything).map InlayHint.label =
        ["x: ", "x: ", "...rest: ", "x: "] ∧
      ∀ h ∈ crowdedDocument.hints (ofItems crowded).root .everything,
        ∃ r c m p b name argument n, crowdedDocument.Labels crowdedTable (ofItems crowded).root
          .everything h r c m p b name argument n :=
  ⟨rfl, by rw [hints_crowded]; rfl,
    hints_label_arguments crowdedTable crowded rfl ⟨[]⟩ .default .everything⟩

end SyntaxTree

end ParameterHints
