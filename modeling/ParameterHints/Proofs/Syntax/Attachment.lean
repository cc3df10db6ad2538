import ParameterHints.Syntax.Arena

/-! # Attaching a closure in any arena

In an arena from elsewhere the data of a call may be missing, and that shows only when an attachment
has begun. So an attachment does one of three things: nothing, all that it should, or its first half
where a call has lost its data. What it leaves alone is the same each time: every other header, the
data of every other call, and the pools of all other kinds.
-/

namespace ParameterHints

/-- A node that ends no earlier than another one. -/
def Node.covering (n body : Node) : Node := { n with stop := max n.stop body.stop }

/-- A call with one more closure behind it. -/
def Call.withClosure (c : Call) (closure : NodeRef) : Call :=
  { c with closures := c.closures ++ [closure] }

theorem modify_eq_setIfInBounds {α : Type} {xs : Array α} {index : Nat} {x : α}
    (here : xs[index]? = some x) (f : α → α) :
    xs.modify index f = xs.setIfInBounds index (f x) := by
  refine Array.ext_getElem? fun other => ?_
  rw [Array.getElem?_modify, Array.getElem?_setIfInBounds]
  split
  · next same =>
      subst same
      obtain ⟨inside, -⟩ := Array.getElem?_eq_some_iff.mp here
      rw [here, if_pos inside, Option.map_some]
  · rfl

namespace Arena

/-- The header of a call that says where its data is, and the node of a closure. -/
structure Finds (a : Arena) (call closure : NodeRef) (index data : Nat) (header body : Node) :
    Prop where
  place : call = some index
  here : a.nodes[index]? = some header
  kind : header.kind = .call
  data : header.data = some data
  there : a.node? closure = some body

/-- What an attachment may answer and leave behind. -/
inductive Attachment (a : Arena) (call closure : NodeRef) : Bool × Arena → Prop where
  /-- There is no call or no closure, and nothing happens. -/
  | refused : (∀ index data header body, ¬ a.Finds call closure index data header body) →
      Attachment a call closure (false, a)
  /-- The header of the call is widened, and its data gets the closure. -/
  | attached {index data header body record} :
      a.Finds call closure index data header body → a.calls[data]? = some record →
      Attachment a call closure (true, { a with
        nodes := a.nodes.setIfInBounds index (header.covering body)
        calls := a.calls.setIfInBounds data (record.withClosure closure) })
  /-- The header is widened before it shows that the data is missing. -/
  | halfway {index data header body} :
      a.Finds call closure index data header body → a.calls[data]? = none →
      Attachment a call closure (false, { a with
        nodes := a.nodes.setIfInBounds index (header.covering body) })

variable {a : Arena} {call closure : NodeRef} {index data : Nat} {header body : Node}

theorem widen_eq (here : a.nodes[index]? = some header) (body : Node) :
    a.widen index body.stop =
      { a with nodes := a.nodes.setIfInBounds index (header.covering body) } := by
  rw [widen, modify_eq_setIfInBounds here, Node.covering]

theorem appendClosure_eq {record : Call} (stored : a.calls[data]? = some record)
    (closure : NodeRef) : a.appendClosure data closure =
      { a with calls := a.calls.setIfInBounds data (record.withClosure closure) } := by
  rw [appendClosure, modify_eq_setIfInBounds stored, Call.withClosure]

/-- An attachment does one of the three things. -/
theorem attachment (a : Arena) (call closure : NodeRef) :
    a.Attachment call closure (a.attachClosure call closure) := by
  unfold attachClosure
  split
  · next body index start stop data there here =>
      have finds : a.Finds (some index) closure index data ⟨.call, start, stop, some data⟩ body :=
        ⟨rfl, here, rfl, rfl, there⟩
      dsimp only
      split
      · next inside =>
          have stored : a.calls[data]? = some a.calls[data] := Array.getElem?_eq_getElem inside
          have still : (a.widen index body.stop).calls[data]? = some a.calls[data] := stored
          rw [appendClosure_eq still, widen_eq finds.here]
          exact .attached finds stored
      · next outside =>
          rw [widen_eq finds.here]
          exact .halfway finds (Array.getElem?_eq_none (Nat.not_lt.mp outside))
  · next unmatched =>
      refine .refused fun index data header body finds => ?_
      obtain ⟨kind, start, stop, own⟩ := header
      obtain ⟨rfl, here, rfl, rfl, there⟩ := finds
      exact unmatched body index start stop data there rfl here

/-- A call and a closure are found at most once. -/
theorem Finds.unique {index' data' : Nat} {header' body' : Node}
    (h : a.Finds call closure index data header body)
    (h' : a.Finds call closure index' data' header' body') :
    index = index' ∧ data = data' ∧ header = header' ∧ body = body' := by
  obtain rfl := Option.some.inj (h.place.symm.trans h'.place)
  obtain rfl := Option.some.inj (h.here.symm.trans h'.here)
  exact ⟨rfl, Option.some.inj (h.data.symm.trans h'.data), rfl,
    Option.some.inj (h.there.symm.trans h'.there)⟩

/-- An attachment succeeds if the call and the closure are there and the call has its data, and then
    only the end of the call and its list of closures have changed. If it fails, nothing has
    changed, unless it is the data of the call that is missing: then the call is widened all the
    same, and that is all. -/
theorem attachment_keeps_others (a : Arena) (call closure : NodeRef) :
    ((a.attachClosure call closure).1 = true ↔ ∃ index data header body record,
      a.Finds call closure index data header body ∧ a.calls[data]? = some record) ∧
    (∀ b, a.attachClosure call closure = (true, b) → ∃ index data header body record,
      a.Finds call closure index data header body ∧ a.calls[data]? = some record ∧
      b = { a with
        nodes := a.nodes.setIfInBounds index { header with stop := max header.stop body.stop }
        calls := a.calls.setIfInBounds data
          { record with closures := record.closures ++ [closure] } }) ∧
    (∀ b, a.attachClosure call closure = (false, b) →
      (∀ index data header body, a.Finds call closure index data header body →
        a.calls[data]? ≠ none) → b = a) ∧
    ∀ b, a.attachClosure call closure = (false, b) →
      ∀ index data header body, a.Finds call closure index data header body →
        b = { a with
          nodes := a.nodes.setIfInBounds index
            { header with stop := max header.stop body.stop } } := by
  have outcome := attachment a call closure
  generalize a.attachClosure call closure = answer at outcome
  cases outcome with
  | refused unfound =>
      refine ⟨⟨nofun, ?_⟩, nofun, ?_, ?_⟩
      · rintro ⟨_, _, _, _, _, finds, -⟩
        exact absurd finds (unfound _ _ _ _)
      · rintro b ⟨⟩ -
        rfl
      · exact fun _ _ _ _ _ _ finds => absurd finds (unfound _ _ _ _)
  | attached finds stored =>
      refine ⟨⟨fun _ => ⟨_, _, _, _, _, finds, stored⟩, fun _ => rfl⟩, ?_, nofun, nofun⟩
      rintro b ⟨⟩
      exact ⟨_, _, _, _, _, finds, stored, rfl⟩
  | halfway finds missing =>
      refine ⟨⟨nofun, ?_⟩, nofun, ?_, ?_⟩
      · rintro ⟨_, _, _, _, _, again, stored⟩
        obtain ⟨-, rfl, -⟩ := finds.unique again
        rw [missing] at stored
        cases stored
      · exact fun b _ unstored => absurd missing (unstored _ _ _ _ finds)
      · rintro b ⟨⟩ _ _ _ _ again
        obtain ⟨rfl, -, rfl, rfl⟩ := finds.unique again
        rfl

/-- A call and a closure behind it, given the pool of calls. -/
def called (calls : Array Call) : Arena :=
  { empty with
    nodes := #[⟨.call, 0, 3, some 0⟩, ⟨.closure, 4, 8, some 0⟩]
    calls := calls
    closures := #[[]] }

/-- The closure is attached to the call, but not the call to the closure. -/
theorem closure_attached :
    let a := called #[⟨none, [], []⟩]
    (∃ b, a.attachClosure (some 0) (some 1) = (true, b) ∧
      b.nodes = #[⟨.call, 0, 8, some 0⟩, ⟨.closure, 4, 8, some 0⟩] ∧
      b.calls = #[⟨none, [], [some 1]⟩]) ∧
    a.attachClosure (some 1) (some 0) = (false, a) := by
  intro a
  obtain ⟨succeeds, attached, -, -⟩ := attachment_keeps_others a (some 0) (some 1)
  obtain ⟨-, -, refused, -⟩ := attachment_keeps_others a (some 1) (some 0)
  have finds : a.Finds (some 0) (some 1) 0 0 ⟨.call, 0, 3, some 0⟩ ⟨.closure, 4, 8, some 0⟩ :=
    ⟨rfl, rfl, rfl, rfl, rfl⟩
  have answer := succeeds.mpr ⟨0, 0, _, _, ⟨none, [], []⟩, finds, rfl⟩
  have failed : (a.attachClosure (some 1) (some 0)).1 = false := rfl
  constructor
  · obtain ⟨_, _, _, _, record, again, stored, changed⟩ := attached _ (Prod.ext answer rfl)
    obtain ⟨rfl, rfl, rfl, rfl⟩ := finds.unique again
    cases stored
    exact ⟨_, Prod.ext answer rfl, congrArg nodes changed, congrArg calls changed⟩
  · refine Prod.ext failed (refused _ (Prod.ext failed rfl) ?_)
    -- A closure is no call.
    rintro _ _ _ _ ⟨⟨⟩, ⟨⟩, ⟨⟩, -, -⟩

/-- A call without its data is widened by the closure that it cannot get. -/
theorem failed_attachment_widens :
    let a := called #[]
    (a.attachClosure (some 0) (some 1)).1 = false ∧
      (a.attachClosure (some 0) (some 1)).2.nodes =
        #[⟨.call, 0, 8, some 0⟩, ⟨.closure, 4, 8, some 0⟩] ∧
      (a.attachClosure (some 0) (some 1)).2 ≠ a := by
  decide

end Arena

end ParameterHints
