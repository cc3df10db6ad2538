import ParameterHints.Proofs.Call.Agreement
import ParameterHints.Proofs.Syntax.Relocation

/-! # Calls in other surroundings

All that is asked about a call is answered from the nodes below it. So it is answered alike wherever
the call is written, and hints are as far from the call as they are when it stands alone.
-/

namespace ParameterHints

variable {k bytes : Nat} {text : List Char} {a b : Arena} {r : NodeRef}

namespace Content

@[simp] theorem identifier?_shift (c : Content) : (c.shift k).identifier? = c.identifier? := by
  cases c <;> rfl

@[simp] theorem reference?_shift (c : Content) :
    (c.shift k).reference? = c.reference?.map (Reference.shift k) := by
  cases c <;> rfl

@[simp] theorem call?_shift (c : Content) : (c.shift k).call? = c.call?.map (Call.shift k) := by
  cases c <;> rfl

end Content

namespace Arena

/-- If the place is an index, it is that of a node. -/
def Grounded (a : Arena) (r : NodeRef) : Prop := ∀ i, r = some i → (a.node? r).isSome

theorem Grounded.cases (g : a.Grounded r) : r = none ∨ ∃ n, a.node? r = some n := by
  cases r with
  | none => exact .inl rfl
  | some i => exact .inr (Option.isSome_iff_exists.mp (g i rfl))

namespace WellFormed

theorem grounded_child (wf : a.WellFormed text) {p : NodeRef} (h : a.HasChild p r) :
    a.Grounded r := by
  obtain ⟨-, m, -, there, -⟩ := wf.child h
  intro _ _
  exact Option.isSome_iff_exists.mpr ⟨m, there⟩

theorem grounded_reference (wf : a.WellFormed text) {data : Reference}
    (h : a.referenceAt? r = some data) : a.Grounded data.qualifier ∧ a.Grounded data.name := by
  rw [referenceAt?_eq] at h
  obtain ⟨c, held, found⟩ := Option.bind_eq_some_iff.mp h
  have listed (s : NodeRef) (member : s ∈ [data.qualifier, data.name]) : a.Grounded s := by
    intro i some
    refine wf.grounded_child (p := r) ?_ i some
    cases c <;> cases found
    rw [HasChild, children_of_contentAt? held, Content.children, List.mem_filter]
    exact ⟨member, by simp [some]⟩
  exact ⟨listed _ (by simp), listed _ (by simp)⟩

theorem grounded_call (wf : a.WellFormed text) {c : Call} (h : a.callAt? r = some c) :
    a.Grounded c.callee ∧ ∀ argument ∈ c.allArguments, a.Grounded argument := by
  rw [callAt?_eq] at h
  obtain ⟨content, held, found⟩ := Option.bind_eq_some_iff.mp h
  have listed (s : NodeRef) (member : s ∈ c.callee :: c.allArguments) : a.Grounded s := by
    apply wf.grounded_child (p := r)
    cases content <;> cases found
    rwa [HasChild, children_of_contentAt? held]
  exact ⟨listed _ List.mem_cons_self, fun s member => listed s (List.mem_cons_of_mem _ member)⟩

end WellFormed

/-- The parts of every reference and of every call are nodes, or no places at all. -/
structure AllGrounded (a : Arena) : Prop where
  reference : ∀ r data, a.referenceAt? r = some data →
    a.Grounded data.qualifier ∧ a.Grounded data.name
  call : ∀ r c, a.callAt? r = some c →
    a.Grounded c.callee ∧ ∀ argument ∈ c.allArguments, a.Grounded argument

theorem WellFormed.allGrounded (wf : a.WellFormed text) : a.AllGrounded :=
  ⟨fun _ _ => wf.grounded_reference, fun _ _ => wf.grounded_call⟩

/-- `b` has the nodes of `a` as well, and with each of them its parts. -/
structure Copies (k bytes : Nat) (a b : Arena) : Prop extends Relocates k bytes a b where
  grounded : a.AllGrounded

theorem Relocates.copies (h : a.Relocates k bytes b) (wf : a.WellFormed text) :
    a.Copies k bytes b :=
  ⟨h, wf.allGrounded⟩

namespace Relocates

variable (h : a.Relocates k bytes b)
include h

theorem any_kind (g : a.Grounded r) (p : NodeKind → Bool) :
    (b.node? (r.shift k)).any (fun n => p n.kind) = (a.node? r).any (fun n => p n.kind) := by
  obtain rfl | ⟨n, here⟩ := g.cases
  · rfl
  · obtain ⟨_, there⟩ := h.node r n here
    rw [here, there]
    rfl

theorem isNamedArgument (g : a.Grounded r) :
    b.isNamedArgument (r.shift k) = a.isNamedArgument r :=
  h.any_kind g (· == .namedArgument)

theorem contentAt? (g : a.Grounded r) :
    b.contentAt? (r.shift k) = (a.contentAt? r).map (Content.shift k) := by
  obtain rfl | ⟨n, here⟩ := g.cases
  · rfl
  · exact h.content r n here

theorem identifierAt? (g : a.Grounded r) : b.identifierAt? (r.shift k) = a.identifierAt? r := by
  rw [identifierAt?_eq, identifierAt?_eq, h.contentAt? g]
  cases a.contentAt? r <;> simp

theorem referenceAt? (g : a.Grounded r) :
    b.referenceAt? (r.shift k) = (a.referenceAt? r).map (Reference.shift k) := by
  rw [referenceAt?_eq, referenceAt?_eq, h.contentAt? g]
  cases a.contentAt? r <;> simp

theorem callAt? (g : a.Grounded r) :
    b.callAt? (r.shift k) = (a.callAt? r).map (Call.shift k) := by
  rw [callAt?_eq, callAt?_eq, h.contentAt? g]
  cases a.contentAt? r <;> simp

theorem size_le : a.size ≤ b.size := by
  apply size_le_of_node
  intro i n here
  obtain ⟨_, there⟩ := h.node _ n here
  exact ⟨i + k, _, Nat.le_add_right i k, there⟩

end Relocates

namespace Copies

variable (h : a.Copies k bytes b)
include h

theorem referenceName? (g : a.Grounded r) :
    b.referenceName? (r.shift k) = a.referenceName? r := by
  rw [Arena.referenceName?, Arena.referenceName?, h.referenceAt? g]
  cases found : a.referenceAt? r with
  | none => rfl
  | some data => exact h.identifierAt? (h.grounded.reference r data found).2

/-- Paths of any length are the same. -/
theorem pathWithin (depth : Nat) (g : a.Grounded r) :
    b.pathWithin depth (r.shift k) = a.pathWithin depth r := by
  induction depth generalizing r with
  | zero => rfl
  | succ depth ih =>
      rw [Arena.pathWithin, Arena.pathWithin, h.identifierAt? g, h.referenceAt? g]
      cases found : a.referenceAt? r with
      | none => rfl
      | some data =>
          obtain ⟨qualifier, name⟩ := data
          obtain ⟨before, last⟩ := h.grounded.reference r _ found
          have named : b.identifierAt? (name.shift k) = a.identifierAt? name :=
            h.identifierAt? last
          cases qualifier with
          | none => simp [Reference.shift, named]
          | some i =>
              have spelled : b.pathWithin depth (some (i + k)) = a.pathWithin depth (some i) :=
                ih before
              simp [Reference.shift, named, spelled]

theorem path? (g : a.Grounded r) : b.path? (r.shift k) = a.path? r := by
  rw [Arena.path?, h.pathWithin _ g, pathWithin_of_le h.size_le]

end Copies

end Arena

/-! ## Binding -/

def Binding.shift (k : Nat) (bound : Binding) : Binding :=
  ⟨bound.arguments.map (NodeRef.shift k), bound.aggregating⟩

/-- Positional arguments are bound by their number alone. -/
theorem bindPositional_shift (parameters : List Parameter) (arguments : List NodeRef) :
    bindPositional parameters (arguments.map (NodeRef.shift k)) =
      (bindPositional parameters arguments).map (List.map (Binding.shift k)) := by
  fun_induction bindPositional parameters arguments with
  | case1 | case2 | case6 => rfl
  | case3 last arguments varargs => simp [bindPositional, varargs, Binding.shift, Binding.multiple]
  | case4 last varargs argument =>
      simp [bindPositional, varargs, Binding.shift, Binding.single]
  | case5 last arguments varargs several =>
      cases arguments with
      | nil => simp [bindPositional, varargs]
      | cons first others =>
          cases others with
          | nil => exact absurd rfl (several first)
          | cons second rest => simp [bindPositional, varargs]
  | case7 first second rest argument arguments ih =>
      rw [List.map_cons, bindPositional, ih, Option.map_map, Option.map_map]
      rfl

/-- Only arguments of a call are bound. -/
theorem grounded_bound {c : Call} {parameters : List Parameter} {bindings : List Binding}
    (grounded : ∀ s ∈ c.allArguments, a.Grounded s)
    (bound : bindArguments parameters a c = some bindings) {taken : Binding}
    (listed : taken ∈ bindings) : ∀ s ∈ taken.arguments, a.Grounded s := by
  intro s member
  apply grounded
  rw [← (perm_bindArguments bound).mem_iff]
  exact List.mem_flatMap.mpr ⟨taken, listed, member⟩

namespace Arena.Relocates

variable (h : a.Relocates k bytes b) {c : Call} {parameters : List Parameter}
  {bindings : List Binding}
include h

theorem namedArguments (grounded : ∀ s ∈ c.allArguments, a.Grounded s) :
    (c.shift k).namedArguments b = (c.namedArguments a).map (NodeRef.shift k) := by
  rw [Call.namedArguments, Call.namedArguments, Call.shift, List.filter_map]
  refine congrArg _ (List.filter_congr ?_)
  intro s member
  exact h.isNamedArgument (grounded s (List.mem_append_left _ member))

theorem positionalArguments (grounded : ∀ s ∈ c.allArguments, a.Grounded s) :
    (c.shift k).positionalArguments b = (c.positionalArguments a).map (NodeRef.shift k) := by
  rw [Call.positionalArguments, Call.positionalArguments, Call.shift, List.filter_map,
    List.map_append]
  refine congrArg (List.map _ · ++ _) (List.filter_congr ?_)
  intro s member
  exact congrArg not (h.isNamedArgument (grounded s (List.mem_append_left _ member)))

theorem bindArguments (grounded : ∀ s ∈ c.allArguments, a.Grounded s)
    (parameters : List Parameter) :
    bindArguments parameters b (c.shift k) =
      (bindArguments parameters a c).map (List.map (Binding.shift k)) := by
  unfold ParameterHints.bindArguments
  simp only [h.namedArguments grounded, h.positionalArguments grounded]
  cases c.namedArguments a with
  | nil => exact bindPositional_shift parameters _
  | cons named others =>
      cases parameters with
      | nil => rfl
      | cons first rest =>
          by_cases map : first.type = .map
          · simp [map, bindPositional_shift, Binding.shift, Binding.multiple, Function.comp_def]
          · simp [map]

theorem admits {p : Parameter} {bound : Binding} (grounded : ∀ s ∈ bound.arguments, a.Grounded s) :
    p.admits b (bound.shift k) = p.admits a bound := by
  rw [Bool.eq_iff_iff, Parameter.admits, Parameter.admits, Binding.shift, List.all_map,
    List.all_eq_true, List.all_eq_true]
  refine forall₂_congr fun s member => ?_
  have accepts : p.type.accepts b (s.shift k) = p.type.accepts a s :=
    h.any_kind (grounded s member) p.type.acceptsKind
  rw [Function.comp_apply, h.isNamedArgument (grounded s member), accepts]

theorem bindingsFit (grounded : ∀ s ∈ c.allArguments, a.Grounded s)
    (bound : ParameterHints.bindArguments parameters a c = some bindings) :
    bindingsFit parameters (bindings.map (Binding.shift k)) b =
      bindingsFit parameters bindings a := by
  rw [Bool.eq_iff_iff, ParameterHints.bindingsFit, ParameterHints.bindingsFit, List.zip_map_right,
    List.all_map, List.all_eq_true, List.all_eq_true]
  refine forall₂_congr fun entry pair => ?_
  have known := grounded_bound grounded bound (List.of_mem_zip pair).2
  exact Iff.of_eq (congrArg (· = true) (h.admits known))

theorem isApplicable (grounded : ∀ s ∈ c.allArguments, a.Grounded s) (m : Method) :
    m.isApplicable b (c.shift k) = m.isApplicable a c := by
  rw [Method.isApplicable, Method.isApplicable, h.bindArguments grounded]
  cases bound : ParameterHints.bindArguments m.parameters a c with
  | none => rfl
  | some bindings => exact h.bindingsFit grounded bound

end Arena.Relocates

/-! ## Resolution -/

namespace Arena.Copies

variable (h : a.Copies k bytes b) (t : Table) {c : Call}
include h

theorem owner? (callee : a.Grounded c.callee) :
    t.owner? b (c.shift k) = t.owner? a c := by
  rw [Table.owner?, Table.owner?, Call.shift, h.referenceAt? callee]
  cases found : a.referenceAt? c.callee with
  | none => rfl
  | some data =>
      obtain ⟨qualifier, name⟩ := data
      have before := (h.grounded.reference _ _ found).1
      cases qualifier with
      | none => rfl
      | some i =>
          have spelled : b.path? (some (i + k)) = a.path? (some i) := h.path? before
          simp [Reference.shift, spelled]

theorem resolve? (g : a.Grounded r) :
    t.resolve? b (r.shift k) = t.resolve? a r := by
  rw [Table.resolve?, Table.resolve?, h.callAt? g]
  cases found : a.callAt? r with
  | none => rfl
  | some c =>
      obtain ⟨callee, grounded⟩ := h.grounded.call r c found
      have name : b.referenceName? (c.shift k).callee = a.referenceName? c.callee :=
        h.referenceName? callee
      have candidates (name : String) :
          t.candidates b (c.shift k) name = t.candidates a c name := by
        rw [Table.candidates, Table.candidates, h.owner? t callee]
        refine List.filter_congr fun id _ => ?_
        simp only [Table.isCandidate, h.isApplicable grounded]
      simp [name, candidates]

theorem signature? (g : a.Grounded r) :
    t.host.signature? b (r.shift k) = t.host.signature? a r := by
  have resolved := h.resolve? t g
  simp only [Table.host, Table.signature?, resolved]

theorem methodInfo? (g : a.Grounded r) :
    t.host.methodInfo? b (r.shift k) = t.host.methodInfo? a r := by
  have resolved : t.host.resolve? b (r.shift k) = t.host.resolve? a r := h.resolve? t g
  rw [Host.methodInfo?, Host.methodInfo?, h.callAt? g, resolved]
  cases a.callAt? r <;> rfl

end Arena.Copies

/-! ## Hints -/

def ParameterHint.shift (bytes : Nat) (hint : ParameterHint) : ParameterHint :=
  ⟨hint.text, hint.offset + bytes⟩

namespace NamedBindings

def shift (k : Nat) (named : NamedBindings) : NamedBindings :=
  named.map fun (name, bound) => (name, bound.shift k)

theorem insert_shift (named : NamedBindings) (name : String) (bound : Binding) :
    (named.shift k).insert name (bound.shift k) = (named.insert name bound).shift k := by
  induction named with
  | nil => rfl
  | cons entry rest ih =>
      obtain ⟨key, old⟩ := entry
      rw [shift] at ih
      by_cases same : key = name <;> simp [shift, insert, same, ih]

theorem foldl_enter_shift (entries : List (Parameter × Binding)) (named : NamedBindings) :
    (entries.map fun (p, bound) => (p, bound.shift k)).foldl enter (named.shift k) =
      (entries.foldl enter named).shift k := by
  induction entries generalizing named with
  | nil => rfl
  | cons entry rest ih =>
      obtain ⟨p, bound⟩ := entry
      rw [List.map_cons, List.foldl_cons, List.foldl_cons, ← ih]
      cases known : p.name with
      | none => simp [enter, known]
      | some name => simp [enter, known, insert_shift]

theorem ofSignature_shift (signature : Signature) (bindings : List Binding) :
    ofSignature signature (bindings.map (Binding.shift k)) =
      (ofSignature signature bindings).shift k := by
  have entered := foldl_enter_shift (k := k) (signature.zip bindings) []
  rw [ofSignature, List.zip_map_right]
  exact entered

end NamedBindings

namespace Arena.Relocates

variable (h : a.Relocates k bytes b)
include h

theorem anchor? {bound : Binding} (grounded : ∀ s ∈ bound.arguments, a.Grounded s) :
    (bound.shift k).anchor? b = (bound.anchor? a).map (NodeRef.shift k) := by
  have named : (bound.shift k).arguments.any b.isNamedArgument =
      bound.arguments.any a.isNamedArgument := by
    rw [Binding.shift, List.any_map, Bool.eq_iff_iff, List.any_eq_true, List.any_eq_true]
    refine exists_congr fun s => and_congr_right fun member => ?_
    rw [Function.comp_apply, h.isNamedArgument (grounded s member)]
  have captures : (bound.shift k).capturesNamed b = bound.capturesNamed a :=
    congrArg (bound.aggregating && ·) named
  rw [Binding.anchor?, Binding.anchor?, captures, Binding.shift, List.head?_map]
  split <;> rfl

theorem hint? {bound : Binding} (grounded : ∀ s ∈ bound.arguments, a.Grounded s) (name : String) :
    (bound.shift k).hint? name b = (bound.hint? name a).map (ParameterHint.shift bytes) := by
  rw [Binding.hint?_eq_anchor, Binding.hint?_eq_anchor, h.anchor? grounded]
  cases anchored : bound.anchor? a with
  | none => rfl
  | some s =>
      have member := List.mem_of_mem_head? (Binding.head_of_anchor? anchored)
      rcases (grounded s member).cases with rfl | ⟨n, here⟩
      · rfl
      · obtain ⟨_, there⟩ := h.node s n here
        simp only [Option.map_some, Option.bind_some, here, there]
        rfl

end Arena.Relocates

namespace Arena.Copies

variable (h : a.Copies k bytes b) (t : Table)
include h

theorem bindings? (g : a.Grounded r) (signature : Signature) :
    t.host.bindings? signature b (r.shift k) =
      (t.host.bindings? signature a r).map (List.map (Binding.shift k)) := by
  simp only [Table.host, h.callAt? g]
  cases found : a.callAt? r with
  | none => rfl
  | some c => exact h.bindArguments (h.grounded.call r c found).2 signature

theorem callHints? (g : a.Grounded r) :
    t.host.callHints? b (r.shift k) =
      (t.host.callHints? a r).map (List.map (ParameterHint.shift bytes)) := by
  rw [Host.callHints?, Host.callHints?, h.signature? t g]
  cases t.host.signature? a r with
  | none => rfl
  | some signature =>
      simp only [Option.bind_eq_bind, Option.bind_some, h.bindings? t g]
      cases answer : t.host.bindings? signature a r with
      | none => rfl
      | some bindings =>
          obtain ⟨c, found, bound⟩ := Option.bind_eq_some_iff.mp answer
          refine congrArg some ?_
          rw [NamedBindings.ofSignature_shift, NamedBindings.shift, List.filterMap_map,
            List.map_filterMap]
          refine List.filterMap_congr fun entry listed => ?_
          obtain ⟨p, pair, -⟩ := NamedBindings.mem_ofSignature listed
          have arguments := (h.grounded.call r c found).2
          exact h.hint? (grounded_bound arguments bound (List.of_mem_zip pair).2) entry.1

theorem hints (g : a.Grounded r) :
    t.host.hints b (r.shift k) = (t.host.hints a r).map (ParameterHint.shift bytes) := by
  have same := h.any_kind g (· == .call)
  rw [Host.hints, Host.hints, same, h.callHints? t g]
  split
  · cases t.host.callHints? a r <;> rfl
  · rfl

end Arena.Copies

/-! ## Well-formed arenas -/

namespace Arena.Relocates

variable (h : a.Relocates k bytes b) (t : Table) (wf : a.WellFormed text) (g : a.Grounded r)
include h wf g

theorem resolve? : t.resolve? b (r.shift k) = t.resolve? a r := (h.copies wf).resolve? t g

theorem methodInfo? : t.host.methodInfo? b (r.shift k) = t.host.methodInfo? a r :=
  (h.copies wf).methodInfo? t g

theorem hints :
    t.host.hints b (r.shift k) = (t.host.hints a r).map (ParameterHint.shift bytes) :=
  (h.copies wf).hints t g

end Arena.Relocates

/-! ## Statements between other items -/

theorem Item.allSelfContained_append (front rest : List Item) :
    Item.allSelfContained (front ++ rest) =
      (Item.allSelfContained front && Item.allSelfContained rest) := by
  induction front with
  | nil => rfl
  | cons item others ih => simp [Item.allSelfContained, ih, Bool.and_assoc]

theorem Item.allSelfContained_around {before after : List Item} {e : Expr}
    (own : Item.allSelfContained (before ++ .statement e :: after)) :
    Item.allSelfContained before ∧ e.selfContained ∧ Item.allSelfContained after := by
  rwa [allSelfContained_append, allSelfContained, selfContained, Bool.and_eq_true,
    Bool.and_eq_true] at own

theorem Draft.items_append (d : Draft) (front rest : List Item) :
    d.items (front ++ rest) =
      let (places, written) := d.items front
      let (others, finished) := written.items rest
      (places ++ others, finished) := by
  induction front generalizing d with
  | nil => rfl
  | cons item others ih => simp [Draft.items, ih]

theorem Arena.Relocates.kept {d d' : Draft} (h : a.Relocates k bytes d.arena)
    (kept : Draft.Keeps (fun _ => True) d d') : a.Relocates k bytes d'.arena where
  node r n here := by
    obtain ⟨data, there⟩ := h.node r n here
    exact ⟨data, kept.node _ _ trivial there⟩
  content r n here := by
    obtain ⟨_, there⟩ := h.node r n here
    rw [kept.contentAt? trivial there, h.content r n here]

namespace SyntaxTree

/-- The place of an expression that is written behind some items. -/
def placeBehind (before : List Item) (e : Expr) : NodeRef :=
  ((Draft.empty.items before).2.expr e).1

/-- The statements of a file are the children of its root. -/
theorem children_root (list : List Item) :
    (ofItems list).arena.children (ofItems list).root = (Draft.empty.items list).1 :=
  Arena.WellFormed.children_nextRef_add _ _

variable {before after : List Item} {e : Expr}

theorem children_around (before after : List Item) (e : Expr) :
    ∃ rest, (ofItems (before ++ .statement e :: after)).arena.children
        (ofItems (before ++ .statement e :: after)).root =
      (Draft.empty.items before).1 ++ placeBehind before e :: rest := by
  rw [children_root, Draft.items_append]
  exact ⟨_, rfl⟩

theorem relocates_ofItems {list : List Item} {statements : List NodeRef} {d : Draft}
    (written : Draft.empty.items list = (statements, d)) (wf : d.WellFormed)
    (h : a.Relocates k bytes d.arena) : a.Relocates k bytes (ofItems list).arena := by
  rw [ofItems]
  simp only [written]
  exact h.kept (.add wf (.sourceFile statements ⟨0, d.offset⟩))

/-- An expression that stands between other items is a copy of the same expression alone. -/
theorem relocates_between (own : Item.allSelfContained (before ++ .statement e :: after)) :
    ∃ k, placeBehind before e = (placeBehind [] e).shift k ∧
      (Draft.empty.expr e).2.arena.Relocates k (ofItems before).source.utf8ByteSize
        (ofItems (before ++ .statement e :: after)).arena := by
  obtain ⟨ownBefore, ownE, ownAfter⟩ := Item.allSelfContained_around own
  have front := (Draft.items_grown .empty .empty before ownBefore).wellFormed
  obtain ⟨place, step⟩ := (Draft.InStep.start (Draft.empty.items before).2).expr .empty front e ownE
  have middle := (Draft.expr_built _ front e ownE).wellFormed
  have rest := Draft.items_kept _ middle after ownAfter
  have all := (Draft.items_grown _ middle after ownAfter).wellFormed
  exact ⟨_, place, relocates_ofItems (Draft.items_append .empty before (.statement e :: after)) all
    (step.toRelocates.kept rest)⟩

/-- A table says the same of `r` in the one tree and of `s` in the other, with hints that are
    `bytes` bytes further on. -/
structure SaysAlike (t : Table) (bytes : Nat) (near : SyntaxTree) (s : NodeRef) (far : SyntaxTree)
    (r : NodeRef) : Prop where
  hints : t.host.groovyProvider.hints far.arena r =
    (t.host.groovyProvider.hints near.arena s).map (ParameterHint.shift bytes)
  info : t.host.groovyProvider.methodInfo? far.arena r =
    t.host.groovyProvider.methodInfo? near.arena s
  resolved : t.host.resolve? far.arena r = t.host.resolve? near.arena s

/-- What is said of a statement between other items is what is said of it alone, except that its
    hints are behind all that is written in front of it. -/
theorem statement_says_alike (t : Table) (before after : List Item) (e : Expr)
    (own : Item.allSelfContained (before ++ .statement e :: after)) :
    let tree := ofItems (before ++ .statement e :: after)
    let alone := ofItems [.statement e]
    (∃ rest, tree.arena.children tree.root =
        (Draft.empty.items before).1 ++ placeBehind before e :: rest) ∧
      alone.arena.children alone.root = [placeBehind [] e] ∧
      SaysAlike t (ofItems before).source.utf8ByteSize alone (placeBehind [] e) tree
        (placeBehind before e) := by
  intro tree alone
  refine ⟨children_around before after e, children_root [.statement e], ?_⟩
  obtain ⟨k, place, far⟩ := relocates_between own
  obtain ⟨-, ownE, -⟩ := Item.allSelfContained_around own
  have ownAlone : Item.allSelfContained ([] ++ .statement e :: []) := by
    simp [Item.allSelfContained, Item.selfContained, ownE]
  obtain ⟨k', same, near⟩ := relocates_between ownAlone
  -- Both trees hold a copy of what is written first of all.
  have b := Draft.expr_built .empty .empty e ownE
  have wf : (Draft.empty.expr e).2.arena.WellFormed _ := b.wellFormed
  have g : (Draft.empty.expr e).2.arena.Grounded (placeBehind [] e) := by
    intro _ _
    obtain ⟨n, here, -⟩ := b.live List.mem_cons_self
    exact Option.isSome_iff_exists.mpr ⟨n, here⟩
  have hints := near.hints t wf g
  have info := near.methodInfo? t wf g
  have resolved := near.resolve? t wf g
  rw [← same] at hints info resolved
  have unmoved : ParameterHint.shift (ofItems []).source.utf8ByteSize = id := rfl
  rw [unmoved, List.map_id] at hints
  rw [place]
  refine ⟨?_, ?_, ?_⟩
  · exact (far.hints t wf g).trans (congrArg _ hints.symm)
  · exact (far.methodInfo? t wf g).trans info.symm
  · exact (far.resolve? t wf g).trans resolved.symm

/-- Items in front of a call and behind it. -/
def itemsAround : List Item × List Item :=
  ([.text "é\r\n", .statement (.trailing (.call "a.b" [.string "ä"]) [.unlisted (.number "1")])],
    [.text ";", .statement (.trailing (.call "f" []) [.statement (.identifier "x")])])

/-- A call with a named argument, a call inside it and a closure behind it. -/
def gatheringCall : Expr :=
  .trailing (.call "f" [.named "k" (.trailing (.call "q.f" []) []), .string "ä", .number "2"]) []

theorem gatheringCall_says_alike :
    let t := Table.empty.addMethod Table.gathering
    let tree := ofItems (itemsAround.1 ++ .statement gatheringCall :: itemsAround.2)
    let r := placeBehind itemsAround.1 gatheringCall
    t.host.groovyProvider.hints tree.arena r = [⟨"x", 36⟩, ⟨"...rest", 42⟩] ∧
      SaysAlike t (ofItems itemsAround.1).source.utf8ByteSize
        (ofItems [.statement gatheringCall]) (placeBehind [] gatheringCall) tree r :=
  ⟨by decide +kernel,
    (statement_says_alike _ itemsAround.1 itemsAround.2 gatheringCall rfl).2.2⟩

end SyntaxTree

end ParameterHints
