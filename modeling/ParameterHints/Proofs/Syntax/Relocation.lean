import ParameterHints.Proofs.Syntax.Kept

/-! # The same construction elsewhere

An expression is written in the same way wherever it is written. Two drafts that are in step, one
with more nodes and more text in front, stay in step while the same expression is written in both:
the new nodes of the one are those of the other, some places and some bytes further on.
-/

namespace ParameterHints

/-! ## Moving references -/

/-- The place `k` further on. -/
def NodeRef.shift (k : Nat) (r : NodeRef) : NodeRef := r.map (· + k)

def Span.shift (bytes : Nat) (s : Span) : Span := ⟨s.start + bytes, s.stop + bytes⟩

def Reference.shift (k : Nat) (data : Reference) : Reference :=
  ⟨data.qualifier.shift k, data.name.shift k⟩

def Call.shift (k : Nat) (c : Call) : Call :=
  ⟨c.callee.shift k, c.arguments.map (NodeRef.shift k), c.closures.map (NodeRef.shift k)⟩

def NamedArgument.shift (k : Nat) (data : NamedArgument) : NamedArgument :=
  ⟨data.label.shift k, data.value.shift k⟩

def Content.shift (k : Nat) : Content → Content
  | .identifier text => .identifier text
  | .literal kind text => .literal kind text
  | .reference data => .reference (data.shift k)
  | .call data => .call (data.shift k)
  | .namedArgument data => .namedArgument (data.shift k)
  | .closure statements => .closure (statements.map (NodeRef.shift k))
  | .sourceFile statements => .sourceFile (statements.map (NodeRef.shift k))

def NewNode.shift (k bytes : Nat) : NewNode → NewNode
  | .identifier text span => .identifier text (span.shift bytes)
  | .literal kind text span => .literal kind text (span.shift bytes)
  | .reference qualifier name => .reference (qualifier.shift k) (name.shift k)
  | .call callee arguments span =>
      .call (callee.shift k) (arguments.map (NodeRef.shift k)) (span.shift bytes)
  | .namedArgument label value => .namedArgument (label.shift k) (value.shift k)
  | .closure statements span => .closure (statements.map (NodeRef.shift k)) (span.shift bytes)
  | .sourceFile statements span => .sourceFile (statements.map (NodeRef.shift k)) (span.shift bytes)

variable {k bytes : Nat}

@[simp] theorem NodeRef.shift_none : NodeRef.shift k none = none := rfl

@[simp] theorem NodeRef.shift_some (i : Nat) : NodeRef.shift k (some i) = some (i + k) := rfl

theorem NodeRef.shift_injective (k : Nat) : Function.Injective (NodeRef.shift k) :=
  Option.map_injective fun _ _ => Nat.add_right_cancel

@[simp] theorem NewNode.kind_shift (x : NewNode) : (x.shift k bytes).kind = x.kind := by
  cases x <;> rfl

@[simp] theorem NewNode.content_shift (x : NewNode) :
    (x.shift k bytes).content = x.content.shift k := by
  cases x <;> rfl

namespace Arena

/-- `b` has the nodes of `a` as well, each of them `k` places and `bytes` bytes further on. -/
structure Relocates (k bytes : Nat) (a b : Arena) : Prop where
  node : ∀ r n, a.node? r = some n →
    ∃ data, b.node? (r.shift k) = some ⟨n.kind, n.start + bytes, n.stop + bytes, data⟩
  content : ∀ r n, a.node? r = some n →
    b.contentAt? (r.shift k) = (a.contentAt? r).map (Content.shift k)

namespace Relocates

variable {a b : Arena}

theorem spanOf_reference (h : a.Relocates k bytes b) {qualifier name : NodeRef} {n : Node}
    (first : ∀ i, qualifier = some i → (a.node? qualifier).isSome) (here : a.node? name = some n) :
    b.spanOf (.reference (qualifier.shift k) (name.shift k)) =
      (a.spanOf (.reference qualifier name)).shift bytes := by
  obtain ⟨_, there⟩ := h.node name n here
  cases qualifier with
  | none => simp [spanOf, referenceSpan, Span.shift, node?_none, here, there]
  | some i =>
      obtain ⟨q, hereQ⟩ := Option.isSome_iff_exists.mp (first i rfl)
      obtain ⟨_, thereQ⟩ := h.node _ q hereQ
      rw [NodeRef.shift_some] at thereQ
      simp [spanOf, referenceSpan, Span.shift, here, there, hereQ, thereQ]

theorem spanOf_namedArgument (h : a.Relocates k bytes b) {label value : NodeRef} {n m : Node}
    (here : a.node? label = some n) (hereV : a.node? value = some m) :
    b.spanOf (.namedArgument (label.shift k) (value.shift k)) =
      (a.spanOf (.namedArgument label value)).shift bytes := by
  obtain ⟨_, there⟩ := h.node label n here
  obtain ⟨_, thereV⟩ := h.node value m hereV
  simp [spanOf, namedArgumentSpan, Span.shift, here, there, hereV, thereV]

end Relocates

end Arena

namespace Draft

variable {d d' called called' written written' : Draft}

/-- `d'` has what `d` has, behind `k` nodes and `bytes` bytes more, and it ends as `d` ends. -/
structure InStep (k bytes : Nat) (d d' : Draft) : Prop
    extends Arena.Relocates k bytes d.arena d'.arena where
  size : d'.arena.size = d.arena.size + k
  offset : d'.offset = d.offset + bytes

namespace InStep

theorem start (d : Draft) : InStep d.arena.size d.offset .empty d where
  node r n here := by cases r <;> cases here
  content r n here := by cases r <;> cases here
  size := by simp [Draft.empty, Arena.empty, Arena.size]
  offset := by simp [Draft.empty, Draft.offset]

theorem write (h : InStep k bytes d d') (text : String) :
    InStep k bytes (d.write text) (d'.write text) where
  node := h.node
  content := h.content
  size := h.size
  offset := by
    rw [offset_write, offset_write, h.offset]
    omega

/-- The same node is added on both sides. -/
theorem add (h : InStep k bytes d d') (wf : d.WellFormed) (wf' : d'.WellFormed) {x y : NewNode}
    (same : y = x.shift k bytes)
    (span : d'.arena.spanOf (x.shift k bytes) = (d.arena.spanOf x).shift bytes) :
    (d'.add y).1 = (d.add x).1.shift k ∧ InStep k bytes (d.add x).2 (d'.add y).2 := by
  subst same
  have next : d'.arena.nextRef = d.arena.nextRef.shift k := congrArg some h.size
  refine ⟨next, ⟨?_, ?_⟩, ?_, h.offset⟩
  · intro r n now
    rcases Arena.node?_add_cases now with old | ⟨rfl, rfl⟩
    · obtain ⟨data, there⟩ := h.node r n old
      exact ⟨data, Arena.node?_add_of_node _ there⟩
    · have new := Arena.node?_nextRef_add d'.arena (x.shift k bytes)
      rw [next, Arena.newHeader, span, NewNode.kind_shift] at new
      exact ⟨_, new⟩
  · intro r n now
    rcases Arena.node?_add_cases now with old | ⟨rfl, rfl⟩
    · obtain ⟨_, there⟩ := h.node r n old
      rw [(Keeps.add wf x).contentAt? trivial old, (Keeps.add wf' _).contentAt? trivial there,
        h.content r n old]
    · have here : (d.add x).2.arena.contentAt? d.arena.nextRef = some x.content :=
        contentAt?_add d x
      have there : (d'.add (x.shift k bytes)).2.arena.contentAt? d'.arena.nextRef = _ :=
        contentAt?_add d' (x.shift k bytes)
      rw [← next, here, there, NewNode.content_shift, Option.map_some]
  · have size := h.size
    simp only [Draft.add, Arena.size_add]
    omega

/-- The same closure is attached to the same call on both sides. -/
theorem attach {index : Nat} {closure : NodeRef} {n m n' m' : Node} (h : InStep k bytes d d')
    (wf : d.WellFormed) (wf' : d'.WellFormed)
    (ready : Arena.WellFormed.Attachable d.arena d.source.toList index closure n m)
    (ready' : Arena.WellFormed.Attachable d'.arena d'.source.toList (index + k) (closure.shift k)
      n' m') :
    InStep k bytes (d.attach (some index) closure)
      (d'.attach (some (index + k)) (closure.shift k)) := by
  have arena : d.arena.WellFormed d.source.toList := wf
  have arena' : d'.arena.WellFormed d'.source.toList := wf'
  have apart (r : NodeRef) (other : r ≠ some index) : r.shift k ≠ some (index + k) :=
    fun same => other (NodeRef.shift_injective k same)
  refine ⟨⟨?_, ?_⟩, ?_, h.offset⟩
  · intro r l now
    rw [Draft.attach, arena.node?_attach ready] at now
    rw [Draft.attach, arena'.node?_attach ready']
    split at now
    · next self =>
        cases now
        obtain ⟨data, there⟩ := h.node _ n ready.here
        obtain ⟨_, behind⟩ := h.node _ m ready.there
        cases ready'.here.symm.trans there
        cases ready'.there.symm.trans behind
        rw [self, if_pos (NodeRef.shift_some index)]
        exact ⟨data, rfl⟩
    · next other =>
        rw [if_neg (apart r other)]
        exact h.node r l now
  · intro r l now
    by_cases self : r = some index
    · subst self
      obtain ⟨c, before, after⟩ := arena.contentAt?_attach_self ready
      obtain ⟨c', before', after'⟩ := arena'.contentAt?_attach_self ready'
      have same := h.content _ n ready.here
      rw [before, NodeRef.shift_some, before'] at same
      cases same
      rw [Draft.attach, Draft.attach, after, NodeRef.shift_some, after']
      simp [Content.shift, Call.shift]
    · have here : d.arena.node? r = some l := by
        rwa [Draft.attach, arena.node?_attach ready, if_neg self] at now
      obtain ⟨_, there⟩ := h.node r l here
      rw [(Keeps.attach wf ready).contentAt? self here,
        (Keeps.attach wf' ready').contentAt? (apart r self) there, h.content r l here]
  · simpa [Draft.attach] using h.size

/-! ## Names and paths -/

theorem identifier (h : InStep k bytes d d') (wf : d.WellFormed) (wf' : d'.WellFormed)
    (name : String) :
    (d'.identifier name).1 = (d.identifier name).1.shift k ∧
      InStep k bytes (d.identifier name).2 (d'.identifier name).2 := by
  have longer := h.write name
  refine longer.add (wf.write name) (wf'.write name) ?_ rfl
  rw [NewNode.shift, Span.shift, h.offset, longer.offset]

theorem literal (h : InStep k bytes d d') (wf : d.WellFormed) (wf' : d'.WellFormed)
    (kind : LiteralKind) (shown value : String) :
    (d'.literal kind shown value).1 = (d.literal kind shown value).1.shift k ∧
      InStep k bytes (d.literal kind shown value).2 (d'.literal kind shown value).2 := by
  have longer := h.write shown
  refine longer.add (wf.write shown) (wf'.write shown) ?_ rfl
  rw [NewNode.shift, Span.shift, h.offset, longer.offset]

theorem pathName (h : InStep k bytes d d') (wf : d.WellFormed) (wf' : d'.WellFormed)
    {qualifier qualifier' : NodeRef} (same : qualifier' = qualifier.shift k)
    (live : ∀ i, qualifier = some i → (d.arena.node? qualifier).isSome) (name : String) :
    (d'.pathName qualifier' name).1 = (d.pathName qualifier name).1.shift k ∧
      InStep k bytes (d.pathName qualifier name).2 (d'.pathName qualifier' name).2 := by
  obtain ⟨place, step⟩ := h.identifier wf wf' name
  have b := identifier_built wf name
  obtain ⟨n, here, -⟩ := b.live List.mem_cons_self
  refine step.add b.wellFormed (identifier_built wf' name).wellFormed ?_
    (step.spanOf_reference ?_ here)
  · rw [NewNode.shift, same]
    exact congrArg (NewNode.reference (qualifier.shift k)) place
  · intro i some
    obtain ⟨q, old⟩ := Option.isSome_iff_exists.mp (live i some)
    exact Option.isSome_iff_exists.mpr ⟨q, b.node qualifier q old⟩

theorem pathNames {before before' : Draft} {qualifier qualifier' : NodeRef}
    (h : InStep k bytes d d') (b : Built before qualifier d) (b' : Built before' qualifier' d')
    (same : qualifier' = qualifier.shift k) (names : List String) :
    (d'.pathNames qualifier' names).1 = (d.pathNames qualifier names).1.shift k ∧
      InStep k bytes (d.pathNames qualifier names).2 (d'.pathNames qualifier' names).2 := by
  induction names generalizing d d' qualifier qualifier' with
  | nil => exact ⟨same, h⟩
  | cons name rest ih =>
      have live : ∀ i, qualifier = some i → (d.arena.node? qualifier).isSome := by
        intro i _
        obtain ⟨q, here, -⟩ := b.live List.mem_cons_self
        exact Option.isSome_iff_exists.mpr ⟨q, here⟩
      obtain ⟨place, step⟩ :=
        (h.write ".").pathName (b.wellFormed.write ".") (b'.wellFormed.write ".") same live name
      exact ih step (qualified_built b name) (qualified_built b' name) place

theorem path (h : InStep k bytes d d') (wf : d.WellFormed) (wf' : d'.WellFormed)
    (dotted : String) :
    (d'.path dotted).1 = (d.path dotted).1.shift k ∧
      InStep k bytes (d.path dotted).2 (d'.path dotted).2 := by
  obtain ⟨place, step⟩ := h.pathName wf wf' NodeRef.shift_none.symm (by simp)
    (String.ofList (Text.splitFirst '.' dotted.toList).1)
  exact step.pathNames (pathName_built wf _) (pathName_built wf' _) place _

/-! ## Calls and closures -/

theorem call {callee callee' : NodeRef} {arguments arguments' : List NodeRef}
    (h : InStep k bytes d d') (inside : InStep k bytes written written') (wf : written.WellFormed)
    (wf' : written'.WellFormed) (place : callee' = callee.shift k)
    (listed : arguments' = arguments.map (NodeRef.shift k)) :
    let closed := written.write ")"
    let closed' := written'.write ")"
    let call := closed.add (.call callee arguments ⟨d.offset, closed.offset⟩)
    let call' := closed'.add (.call callee' arguments' ⟨d'.offset, closed'.offset⟩)
    call'.1 = call.1.shift k ∧ InStep k bytes call.2 call'.2 := by
  have longer := inside.write ")"
  refine longer.add (wf.write _) (wf'.write _) ?_ rfl
  rw [NewNode.shift, Span.shift, h.offset, longer.offset, place, listed]

theorem brace {statements statements' : List NodeRef} (h : InStep k bytes d d')
    (inside : InStep k bytes written written') (wf : written.WellFormed)
    (wf' : written'.WellFormed) (same : statements' = statements.map (NodeRef.shift k)) :
    (brace d' written' statements').1 = (brace d written statements).1.shift k ∧
      InStep k bytes (Draft.brace d written statements).2
        (Draft.brace d' written' statements').2 := by
  have longer := inside.write " \x7d"
  refine longer.add (wf.write _) (wf'.write _) ?_ rfl
  rw [NewNode.shift, Span.shift, h.offset, longer.offset, same]

theorem trailing {target target' : NodeRef} {statements statements' : List NodeRef}
    (h : InStep k bytes called called') (b : Built d target called)
    (b' : Built d' target' called') (same : target' = target.shift k)
    (g : Grown ((called.write " ").write "\x7b ") statements written)
    (g' : Grown ((called'.write " ").write "\x7b ") statements' written')
    (inside : InStep k bytes written written')
    (listed : statements' = statements.map (NodeRef.shift k)) :
    let closure := Draft.brace (called.write " ") written statements
    let closure' := Draft.brace (called'.write " ") written' statements'
    InStep k bytes (closure.2.attach target closure.1) (closure'.2.attach target' closure'.1) := by
  intro closure closure'
  obtain ⟨place, step⟩ := (h.write " ").brace inside g.wellFormed g'.wellFormed listed
  have c := closure_built (b.wellFormed.write " ") g
  have c' := closure_built (b'.wellFormed.write " ") g'
  obtain ⟨n, here, -⟩ := b.live List.mem_cons_self
  obtain ⟨data, there⟩ := h.node target n here
  subst same
  by_cases call : n.kind = .call
  · obtain ⟨index, m, rfl, ready⟩ := attachable_behind b here call g
    obtain ⟨index', m', shifted, ready'⟩ := attachable_behind b' there call g'
    cases shifted
    have place : closure'.1 = closure.1.shift k := place
    rw [place] at ready' ⊢
    exact step.attach c.wellFormed c'.wellFormed ready ready'
  · have same : closure.2.attach target closure.1 = closure.2 := attach_behind_other b here call g
    have same' : closure'.2.attach (target.shift k) closure'.1 = closure'.2 :=
      attach_behind_other b' there call g'
    rw [same, same']
    exact step

/-! ## All expressions -/

mutual

theorem expr {d d' : Draft} (h : InStep k bytes d d') (wf : d.WellFormed)
    (wf' : d'.WellFormed) (e : Expr) (own : e.selfContained) :
    (d'.expr e).1 = (d.expr e).1.shift k ∧ InStep k bytes (d.expr e).2 (d'.expr e).2 := by
  cases e with
  | identifier name => exact h.identifier wf wf' name
  | string value => exact h.literal wf wf' .string _ value
  | number digits => exact h.literal wf wf' .numeric digits digits
  | path dotted => exact h.path wf wf' dotted
  | named label value =>
      obtain ⟨placeL, stepL⟩ := h.identifier wf wf' label
      have b := identifier_built wf label
      have labelled := b.wellFormed.write ": "
      have labelled' := (identifier_built wf' label).wellFormed.write ": "
      obtain ⟨placeV, stepV⟩ := (stepL.write ": ").expr labelled labelled' value own
      have c := expr_built _ labelled value own
      have c' := expr_built _ labelled' value own
      obtain ⟨n, old, -⟩ := b.live List.mem_cons_self
      obtain ⟨m, here, -⟩ := c.live List.mem_cons_self
      refine stepV.add c.wellFormed c'.wellFormed ?_
        (stepV.spanOf_namedArgument (c.node _ n old) here)
      exact congrArg₂ NewNode.namedArgument placeL placeV
  | closure body =>
      have opened := wf.write "\x7b "
      have opened' := wf'.write "\x7b "
      obtain ⟨listed, inside⟩ := (h.write "\x7b ").items opened opened' body own
      exact h.brace inside (items_grown _ opened body own).wellFormed
        (items_grown _ opened' body own).wellFormed listed
  | call callee arguments =>
      obtain ⟨place, called⟩ := h.path wf wf' callee
      have opened := (path_built wf callee).wellFormed.write "("
      have opened' := (path_built wf' callee).wellFormed.write "("
      obtain ⟨listed, inside⟩ := (called.write "(").arguments opened opened' true arguments own
      exact h.call inside (arguments_wellFormed opened true arguments own)
        (arguments_wellFormed opened' true arguments own) place listed
  | trailing target body =>
      rw [Expr.selfContained, Bool.and_eq_true] at own
      obtain ⟨ownTarget, ownBody⟩ := own
      have b := expr_built d wf target ownTarget
      have b' := expr_built d' wf' target ownTarget
      obtain ⟨place, called⟩ := h.expr wf wf' target ownTarget
      have opened := (b.wellFormed.write " ").write "\x7b "
      have opened' := (b'.wellFormed.write " ").write "\x7b "
      obtain ⟨listed, inside⟩ :=
        ((called.write " ").write "\x7b ").items opened opened' body ownBody
      exact ⟨place, called.trailing b b' place (items_grown _ opened body ownBody)
        (items_grown _ opened' body ownBody) inside listed⟩
  | existing place => cases own
termination_by sizeOf e

theorem arguments {d d' : Draft} (h : InStep k bytes d d') (wf : d.WellFormed)
    (wf' : d'.WellFormed) (first : Bool) (es : List Expr) (own : Expr.allSelfContained es) :
    (d'.arguments first es).1 = (d.arguments first es).1.map (NodeRef.shift k) ∧
      InStep k bytes (d.arguments first es).2 (d'.arguments first es).2 := by
  cases es with
  | nil => exact ⟨rfl, h⟩
  | cons e rest =>
      rw [Expr.allSelfContained, Bool.and_eq_true] at own
      obtain ⟨ownE, ownRest⟩ := own
      have others {d d' : Draft} (h : InStep k bytes d d') (wf : d.WellFormed)
          (wf' : d'.WellFormed) :
          (d'.expr e).1 :: ((d'.expr e).2.arguments false rest).1 =
              ((d.expr e).1 :: ((d.expr e).2.arguments false rest).1).map (NodeRef.shift k) ∧
            InStep k bytes ((d.expr e).2.arguments false rest).2
              ((d'.expr e).2.arguments false rest).2 := by
        obtain ⟨place, step⟩ := h.expr wf wf' e ownE
        obtain ⟨places, step⟩ := step.arguments (expr_built d wf e ownE).wellFormed
          (expr_built d' wf' e ownE).wellFormed false rest ownRest
        exact ⟨congrArg₂ List.cons place places, step⟩
      cases first with
      | true => exact others h wf wf'
      | false => exact others (h.write ", ") (wf.write ", ") (wf'.write ", ")
termination_by sizeOf es

theorem items {d d' : Draft} (h : InStep k bytes d d') (wf : d.WellFormed)
    (wf' : d'.WellFormed) (is : List Item) (own : Item.allSelfContained is) :
    (d'.items is).1 = (d.items is).1.map (NodeRef.shift k) ∧
      InStep k bytes (d.items is).2 (d'.items is).2 := by
  cases is with
  | nil => exact ⟨rfl, h⟩
  | cons item rest =>
      rw [Item.allSelfContained, Bool.and_eq_true] at own
      obtain ⟨ownItem, ownRest⟩ := own
      obtain ⟨place, step⟩ := h.item wf wf' item ownItem
      obtain ⟨places, step⟩ := step.items (item_grown d wf item ownItem).wellFormed
        (item_grown d' wf' item ownItem).wellFormed rest ownRest
      refine ⟨(congrArg₂ (· ++ ·) place places).trans ?_, step⟩
      exact List.map_append.symm
termination_by sizeOf is

theorem item {d d' : Draft} (h : InStep k bytes d d') (wf : d.WellFormed)
    (wf' : d'.WellFormed) (item : Item) (own : item.selfContained) :
    (d'.item item).1 = (d.item item).1.map (NodeRef.shift k) ∧
      InStep k bytes (d.item item).2 (d'.item item).2 := by
  cases item with
  | text text => exact ⟨rfl, h.write text⟩
  | unlisted e => exact ⟨rfl, (h.expr wf wf' e own).2⟩
  | statement e =>
      obtain ⟨place, step⟩ := h.expr wf wf' e own
      exact ⟨congrArg (fun r => [r]) place, step⟩
termination_by sizeOf item

end

end InStep

end Draft

end ParameterHints
