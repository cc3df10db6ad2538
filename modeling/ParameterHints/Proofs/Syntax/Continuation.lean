import ParameterHints.Proofs.Syntax.Construction
import ParameterHints.Proofs.Syntax.Content
import ParameterHints.Proofs.Syntax.Paths

/-! # What every continuation leaves alone

A draft of any sort is continued by writing, adding nodes and attaching closures, in any order and
anywhere. A closure may go to a call that was there before, and that is all that happens to what old
nodes hold: names, references and callees stay, and with them the paths that are spelled.
-/

namespace ParameterHints

/-- What the content of a node may become: a call may get closures. -/
inductive Content.Becomes : Content → Content → Prop where
  | same (c : Content) : Becomes c c
  | called (c : Call) (closures : List NodeRef) :
      Becomes (.call c) (.call { c with closures := c.closures ++ closures })

theorem Content.Becomes.trans {first second third : Content} (h : first.Becomes second)
    (k : second.Becomes third) : first.Becomes third := by
  cases h with
  | same => exact k
  | called c closures =>
      cases k with
      | same => exact .called c closures
      | called _ more =>
          rw [List.append_assoc]
          exact .called c (closures ++ more)

namespace Arena

/-- All that one arena holds, another holds at the same places, but for closures behind calls. -/
def CarriedBy (a b : Arena) : Prop :=
  ∀ r c, a.contentAt? r = some c → ∃ c', b.contentAt? r = some c' ∧ c.Becomes c'

variable {a b c : Arena} {r : NodeRef}

/-- The ends of a node are no part of its content. -/
theorem contentAt?_widen (a : Arena) (index stop : Nat) (r : NodeRef) :
    (a.widen index stop).contentAt? r = a.contentAt? r := by
  have pools : (a.widen index stop).content? = a.content? := rfl
  rw [contentAt?, contentAt?, node?_widen, pools]
  split
  · cases here : a.node? r with
    | none => rfl
    | some n =>
        obtain ⟨kind, start, stop, data⟩ := n
        cases kind <;> cases data <;> rfl
  · rfl

theorem content?_appendClosure_becomes {n : Node} {held : Content}
    (h : a.content? n = some held) (data : Nat) (closure : NodeRef) :
    ∃ now, (a.appendClosure data closure).content? n = some now ∧ held.Becomes now := by
  by_cases call : n.kind = .call ∧ n.data = some data
  · obtain ⟨kind, own⟩ := call
    rw [content?_of_kind kind] at h
    obtain ⟨record, stored, rfl⟩ := Option.map_eq_some_iff.mp h
    refine ⟨_, ?_, .called record [closure]⟩
    rw [content?_of_kind kind, call?_appendClosure, if_pos own, stored, Option.map_some,
      Option.map_some]
  · refine ⟨held, ?_, .same held⟩
    rwa [content?_appendClosure a data closure n fun kind own => call ⟨kind, own⟩]

namespace CarriedBy

theorem refl (a : Arena) : a.CarriedBy a := fun _ c held => ⟨c, held, .same c⟩

theorem trans (h : a.CarriedBy b) (k : b.CarriedBy c) : a.CarriedBy c := by
  intro r first held
  obtain ⟨second, held, becomes⟩ := h r first held
  obtain ⟨third, held, more⟩ := k r second held
  exact ⟨third, held, becomes.trans more⟩

theorem add (a : Arena) (x : NewNode) : a.CarriedBy (a.add x) :=
  fun _ c held => ⟨c, contentAt?_add_of_some x held, .same c⟩

theorem appendClosure (a : Arena) (data : Nat) (closure : NodeRef) :
    a.CarriedBy (a.appendClosure data closure) := by
  intro r c held
  obtain ⟨n, here, held⟩ := Option.bind_eq_some_iff.mp held
  obtain ⟨now, held, becomes⟩ := content?_appendClosure_becomes held data closure
  have still : (a.appendClosure data closure).node? r = some n := here
  exact ⟨now, by rw [contentAt?_of_node still, held], becomes⟩

theorem widen (a : Arena) (index stop : Nat) : a.CarriedBy (a.widen index stop) :=
  fun r c held => ⟨c, by rw [contentAt?_widen, held], .same c⟩

theorem attachClosure (a : Arena) (call closure : NodeRef) :
    a.CarriedBy (a.attachClosure call closure).2 := by
  unfold Arena.attachClosure
  split
  · split
    · exact (widen a _ _).trans (.appendClosure _ _ _)
    · exact widen a _ _
  · exact refl a

theorem identifierAt? (h : a.CarriedBy b) {text : String} (here : a.identifierAt? r = some text) :
    b.identifierAt? r = some text := by
  rw [identifierAt?_eq] at here ⊢
  obtain ⟨content, held, here⟩ := Option.bind_eq_some_iff.mp here
  obtain ⟨_, held, becomes⟩ := h r content held
  cases becomes with
  | same => rw [held, Option.bind_some, here]
  | called => cases here

theorem referenceAt? (h : a.CarriedBy b) {data : Reference} (here : a.referenceAt? r = some data) :
    b.referenceAt? r = some data := by
  rw [referenceAt?_eq] at here ⊢
  obtain ⟨content, held, here⟩ := Option.bind_eq_some_iff.mp here
  obtain ⟨_, held, becomes⟩ := h r content held
  cases becomes with
  | same => rw [held, Option.bind_some, here]
  | called => cases here

/-- A call stays a call with its callee and its arguments in parentheses. -/
theorem callAt? (h : a.CarriedBy b) {call : Call} (here : a.callAt? r = some call) :
    ∃ closures, b.callAt? r = some { call with closures := closures } := by
  rw [callAt?_eq] at here ⊢
  obtain ⟨content, held, here⟩ := Option.bind_eq_some_iff.mp here
  obtain ⟨_, held, becomes⟩ := h r content held
  cases becomes with
  | same => exact ⟨call.closures, by rw [held, Option.bind_some, here]⟩
  | called first closures =>
      cases here
      exact ⟨call.closures ++ closures, by rw [held]; rfl⟩

theorem spells (h : a.CarriedBy b) {path : String} (spelled : a.Spells r path) :
    b.Spells r path := by
  induction spelled with
  | identifier text => exact .identifier (h.identifierAt? text)
  | bare here named => exact .bare (h.referenceAt? here) (h.identifierAt? named)
  | qualified here named _ ih => exact .qualified (h.referenceAt? here) (h.identifierAt? named) ih

theorem path? (h : a.CarriedBy b) {path : String} (spelled : a.path? r = some path) :
    b.path? r = some path :=
  path?_iff_spells.mpr (h.spells (path?_iff_spells.mp spelled))

end CarriedBy

end Arena

namespace Draft

/-- One draft is continued to another by any operations. -/
inductive Leads (d : Draft) : Draft → Prop where
  | refl : Leads d d
  | write {e} (text : String) : Leads d e → Leads d (e.write text)
  | add {e} (x : NewNode) : Leads d e → Leads d (e.add x).2
  | attach {e} (call closure : NodeRef) : Leads d e → Leads d (e.attach call closure)

namespace Leads

variable {d e f : Draft}

theorem trans (h : d.Leads e) (k : e.Leads f) : d.Leads f := by
  induction k with
  | refl => exact h
  | write text _ ih => exact ih.write text
  | add x _ ih => exact ih.add x
  | attach call closure _ ih => exact ih.attach call closure

theorem carried (h : d.Leads e) : d.arena.CarriedBy e.arena := by
  induction h with
  | refl => exact .refl _
  | write text _ ih => exact ih
  | add x _ ih => exact ih.trans (.add _ x)
  | attach call closure _ ih => exact ih.trans (.attachClosure _ call closure)

end Leads

/-- No pool has more entries than there are nodes. -/
def Pooled (d : Draft) : Prop := ∀ kind, d.arena.poolSize kind ≤ d.arena.size

theorem WellFormed.pooled {d : Draft} (wf : d.WellFormed) : d.Pooled := Arena.WellFormed.pools wf

theorem Leads.pooled {d e : Draft} (h : d.Leads e) (pooled : d.Pooled) : e.Pooled := by
  intro kind
  induction h with
  | refl => exact pooled kind
  | write text _ ih => exact ih
  | @add e x _ ih =>
      change (e.arena.add x).poolSize kind ≤ (e.arena.add x).size
      rw [Arena.size_add]
      exact Nat.le_trans (Arena.poolSize_add_le e.arena x kind) (Nat.add_le_add_right ih 1)
  | @attach e call closure _ ih =>
      change (e.arena.attachClosure call closure).2.poolSize kind ≤
        (e.arena.attachClosure call closure).2.size
      rwa [Arena.poolSize_attachClosure, Arena.size_attachClosure]

/-! ## Expressions -/

theorem identifier_leads (d : Draft) (name : String) : d.Leads (d.identifier name).2 :=
  (Leads.refl.write name).add _

theorem literal_leads (d : Draft) (kind : LiteralKind) (shown value : String) :
    d.Leads (d.literal kind shown value).2 :=
  (Leads.refl.write shown).add _

theorem pathName_leads (d : Draft) (qualifier : NodeRef) (name : String) :
    d.Leads (d.pathName qualifier name).2 :=
  (identifier_leads d name).add _

theorem pathNames_leads (d : Draft) (qualifier : NodeRef) (names : List String) :
    d.Leads (d.pathNames qualifier names).2 := by
  induction names generalizing d qualifier with
  | nil => exact .refl
  | cons name rest ih =>
      exact ((Leads.refl.write ".").trans (pathName_leads _ qualifier name)).trans (ih _ _)

theorem path_leads (d : Draft) (dotted : String) : d.Leads (d.path dotted).2 :=
  (pathName_leads d none _).trans (pathNames_leads _ _ _)

mutual

theorem expr_leads (d : Draft) (e : Expr) : d.Leads (d.expr e).2 := by
  cases e with
  | identifier name => exact identifier_leads d name
  | string value => exact literal_leads d .string _ value
  | number digits => exact literal_leads d .numeric digits digits
  | path dotted => exact path_leads d dotted
  | named label value =>
      exact (((identifier_leads d label).write ": ").trans (expr_leads _ value)).add _
  | closure body => exact (((Leads.refl.write "\x7b ").trans (items_leads _ body)).write _).add _
  | call callee list =>
      have opened := (path_leads d callee).write "("
      exact ((opened.trans (arguments_leads _ true list)).write ")").add _
  | trailing target body =>
      have opened := ((expr_leads d target).write " ").write "\x7b "
      exact (((opened.trans (items_leads _ body)).write " \x7d").add _).attach _ _
  | existing place => exact .refl
termination_by sizeOf e

theorem arguments_leads (d : Draft) (first : Bool) (es : List Expr) :
    d.Leads (d.arguments first es).2 := by
  cases es with
  | nil => exact .refl
  | cons e rest =>
      have others (d : Draft) : d.Leads ((d.expr e).2.arguments false rest).2 :=
        (expr_leads d e).trans (arguments_leads _ false rest)
      cases first with
      | true => exact others d
      | false => exact (Leads.refl.write ", ").trans (others _)
termination_by sizeOf es

theorem items_leads (d : Draft) (is : List Item) : d.Leads (d.items is).2 := by
  cases is with
  | nil => exact .refl
  | cons item rest => exact (item_leads d item).trans (items_leads _ rest)
termination_by sizeOf is

theorem item_leads (d : Draft) (item : Item) : d.Leads (d.item item).2 := by
  cases item with
  | text text => exact Leads.refl.write text
  | unlisted e | statement e => exact expr_leads d e
termination_by sizeOf item

end

end Draft

end ParameterHints
