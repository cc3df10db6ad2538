import ParameterHints.Proofs.Syntax.Continuation

/-! # What construction leaves alone

Nodes that are there already keep their headers and their contents, whatever is written behind
them. A closure is attached to a call, but that call was written just before it.
-/

namespace ParameterHints

namespace Draft

variable {before d after called written : Draft} {r target closure : NodeRef}

/-- What `before` says of some places, and what it spells at any, holds of `after` as well. -/
structure Keeps (kept : NodeRef → Prop) (before after : Draft) : Prop where
  text : ∃ more, after.source.toList = before.source.toList ++ more
  node : ∀ r n, kept r → before.arena.node? r = some n → after.arena.node? r = some n
  content : ∀ r n, kept r → before.arena.node? r = some n →
    after.arena.content? n = before.arena.content? n
  spells : ∀ r path, before.arena.Spells r path → after.arena.Spells r path

theorem contentAt?_add (d : Draft) (x : NewNode) :
    (d.add x).2.arena.contentAt? (d.add x).1 = some x.content := by
  change (d.arena.add x).contentAt? d.arena.nextRef = _
  rw [Arena.contentAt?_of_node (Arena.node?_nextRef_add d.arena x), Arena.content?_newHeader]

namespace Keeps

variable {kept : NodeRef → Prop}

theorem contentAt? (k : Keeps kept before after) (self : kept r) {n : Node}
    (here : before.arena.node? r = some n) :
    after.arena.contentAt? r = before.arena.contentAt? r := by
  rw [Arena.contentAt?_of_node here, Arena.contentAt?_of_node (k.node r n self here),
    k.content r n self here]

/-- What is kept first and then kept again is kept. -/
theorem trans {kept' : NodeRef → Prop} (k : Keeps kept before d) (l : Keeps kept' d after)
    (still : ∀ r n, kept r → before.arena.node? r = some n → kept' r) :
    Keeps kept before after where
  text := by
    obtain ⟨first, hf⟩ := k.text
    obtain ⟨second, hs⟩ := l.text
    exact ⟨first ++ second, by rw [hs, hf, List.append_assoc]⟩
  node r n self here := l.node r n (still r n self here) (k.node r n self here)
  content r n self here := by
    rw [l.content r n (still r n self here) (k.node r n self here), k.content r n self here]
  spells r path spelled := l.spells r path (k.spells r path spelled)

theorem append (k : Keeps (fun _ => True) before d) (l : Keeps (fun _ => True) d after) :
    Keeps (fun _ => True) before after :=
  k.trans l fun _ _ _ _ => trivial

theorem refl (d : Draft) : Keeps (fun _ => True) d d :=
  ⟨⟨[], by simp⟩, fun _ _ _ here => here, fun _ _ _ _ => rfl, fun _ _ h => h⟩

theorem write (d : Draft) (text : String) : Keeps (fun _ => True) d (d.write text) :=
  ⟨⟨text.toList, text_write d text⟩, fun _ _ _ here => here, fun _ _ _ _ => rfl, fun _ _ h => h⟩

theorem add (wf : d.WellFormed) (x : NewNode) : Keeps (fun _ => True) d (d.add x).2 where
  text := ⟨[], by simp [Draft.add]⟩
  node r n _ here := Arena.node?_add_of_node x here
  content r n _ here := Arena.content?_add x (Arena.WellFormed.stored wf r n here)
  spells _ _ := (Arena.CarriedBy.add d.arena x).spells

end Keeps

/-- Attaching a closure to a call leaves all other nodes as they were. -/
theorem Keeps.attach {index : Nat} {n m : Node} (wf : d.WellFormed)
    (h : Arena.WellFormed.Attachable d.arena d.source.toList index closure n m) :
    Keeps (· ≠ some index) d (d.attach (some index) closure) := by
  have wf : d.arena.WellFormed d.source.toList := wf
  have header (r : NodeRef) (k : Node) (other : r ≠ some index) (here : d.arena.node? r = some k) :
      (d.attach (some index) closure).arena.node? r = some k := by
    rw [Draft.attach, wf.node?_attach h, if_neg other, here]
  have held (r : NodeRef) (k : Node) (other : r ≠ some index) (here : d.arena.node? r = some k) :
      (d.attach (some index) closure).arena.content? k = d.arena.content? k :=
    wf.content?_attach_other h other here
  exact ⟨⟨[], by simp [Draft.attach]⟩, header, held,
    fun _ _ => (Arena.CarriedBy.attachClosure d.arena (some index) closure).spells⟩

/-! ## Expressions -/

theorem identifier_kept (wf : d.WellFormed) (name : String) :
    Keeps (fun _ => True) d (d.identifier name).2 :=
  (Keeps.write d name).append (Keeps.add (wf.write name) _)

theorem literal_kept (wf : d.WellFormed) (kind : LiteralKind) (shown value : String) :
    Keeps (fun _ => True) d (d.literal kind shown value).2 :=
  (Keeps.write d shown).append (Keeps.add (wf.write shown) _)

theorem pathName_kept (wf : d.WellFormed) (qualifier : NodeRef) (name : String) :
    Keeps (fun _ => True) d (d.pathName qualifier name).2 :=
  (identifier_kept wf name).append (Keeps.add (identifier_built wf name).wellFormed _)

theorem pathNames_kept {qualifier : NodeRef} (b : Built before qualifier d) (names : List String) :
    Keeps (fun _ => True) d (d.pathNames qualifier names).2 := by
  induction names generalizing d qualifier with
  | nil => exact .refl d
  | cons name rest ih =>
      have dotted := b.wellFormed.write "."
      have named := (Keeps.write d ".").append (pathName_kept dotted qualifier name)
      exact named.append (ih (qualified_built b name))

theorem path_kept (wf : d.WellFormed) (dotted : String) :
    Keeps (fun _ => True) d (d.path dotted).2 :=
  (pathName_kept wf none _).append (pathNames_kept (pathName_built wf _) _)

theorem closure_kept {statements : List NodeRef} (g : Grown (d.write "\x7b ") statements written)
    (k : Keeps (fun _ => True) (d.write "\x7b ") written) :
    Keeps (fun _ => True) d (brace d written statements).2 :=
  (((Keeps.write d _).append k).append (.write written _)).append (.add (g.wellFormed.write _) _)

/-- The call that a closure is attached to is a new one. -/
theorem trailing_kept {statements : List NodeRef} (b : Built d target called)
    (first : Keeps (fun _ => True) d called)
    (g : Grown ((called.write " ").write "\x7b ") statements written)
    (second : Keeps (fun _ => True) ((called.write " ").write "\x7b ") written) :
    let closure := brace (called.write " ") written statements
    Keeps (fun _ => True) d (closure.2.attach target closure.1) := by
  intro closure
  have k := closure_built (b.wellFormed.write " ") g
  have closed : Keeps (fun _ => True) d closure.2 :=
    (first.append (.write called " ")).append (closure_kept g second)
  obtain ⟨n, here, -⟩ := b.live List.mem_cons_self
  by_cases call : n.kind = .call
  · obtain ⟨index, m, rfl, h⟩ := attachable_behind b here call g
    refine closed.trans (Keeps.attach k.wellFormed h) ?_
    intro r old _ found self
    rw [self, b.new _ List.mem_cons_self] at found
    cases found
  · have same : closure.2.attach target closure.1 = closure.2 := attach_behind_other b here call g
    rwa [same]

mutual

theorem expr_kept (d : Draft) (wf : d.WellFormed) (e : Expr) (own : e.selfContained) :
    Keeps (fun _ => True) d (d.expr e).2 := by
  cases e with
  | identifier name => exact identifier_kept wf name
  | string value => exact literal_kept wf .string _ value
  | number digits => exact literal_kept wf .numeric digits digits
  | path dotted => exact path_kept wf dotted
  | named label value =>
      have labelled := (identifier_built wf label).wellFormed.write ": "
      have k := expr_built _ labelled value own
      have first := (identifier_kept wf label).append (.write _ ": ")
      exact (first.append (expr_kept _ labelled value own)).append (.add k.wellFormed _)
  | closure body =>
      have opened := wf.write "\x7b "
      exact closure_kept (items_grown _ opened body own) (items_kept _ opened body own)
  | call callee arguments =>
      have b := path_built wf callee
      have opened := b.wellFormed.write "("
      have g := (arguments_grown (d.path callee).2 _ true (.written b.wellFormed "(")
        (fun _ => separated_write _ [] (.inl rfl)) arguments own).1
      have first := (path_kept wf callee).append (.write _ "(")
      have second := (arguments_kept _ opened true arguments own).append (.write _ ")")
      exact (first.append second).append (.add (g.wellFormed.write ")") _)
  | trailing target body =>
      rw [Expr.selfContained, Bool.and_eq_true] at own
      obtain ⟨ownTarget, ownBody⟩ := own
      have b := expr_built d wf target ownTarget
      have opened := (b.wellFormed.write " ").write "\x7b "
      exact trailing_kept b (expr_kept d wf target ownTarget) (items_grown _ opened body ownBody)
        (items_kept _ opened body ownBody)
  | existing place => cases own
termination_by sizeOf e

theorem arguments_kept (d : Draft) (wf : d.WellFormed) (first : Bool) (es : List Expr)
    (own : Expr.allSelfContained es) : Keeps (fun _ => True) d (d.arguments first es).2 := by
  cases es with
  | nil => exact .refl d
  | cons e rest =>
      rw [Expr.allSelfContained, Bool.and_eq_true] at own
      have others (d : Draft) (wf : d.WellFormed) :
          Keeps (fun _ => True) d ((d.expr e).2.arguments false rest).2 :=
        (expr_kept d wf e own.1).append
          (arguments_kept _ (expr_built d wf e own.1).wellFormed false rest own.2)
      cases first with
      | true => exact others d wf
      | false => exact (Keeps.write d ", ").append (others _ (wf.write ", "))
termination_by sizeOf es

theorem items_kept (d : Draft) (wf : d.WellFormed) (is : List Item)
    (own : Item.allSelfContained is) : Keeps (fun _ => True) d (d.items is).2 := by
  cases is with
  | nil => exact .refl d
  | cons item rest =>
      rw [Item.allSelfContained, Bool.and_eq_true] at own
      have first := (item_grown d wf item own.1).wellFormed
      exact (item_kept d wf item own.1).append (items_kept _ first rest own.2)
termination_by sizeOf is

theorem item_kept (d : Draft) (wf : d.WellFormed) (item : Item) (own : item.selfContained) :
    Keeps (fun _ => True) d (d.item item).2 := by
  cases item with
  | text text => exact .write d text
  | unlisted e | statement e => exact expr_kept d wf e own
termination_by sizeOf item

end

end Draft

end ParameterHints
