import ParameterHints.Proofs.Syntax.Growth

/-! # Construction of a tree

Every expression that brings all of its nodes itself grows a draft by one node that begins where
the draft ended, and every list of items by a row of nodes. What was there before stays as it was:
a trailing closure changes a call, but that call is part of the same expression.
-/

namespace ParameterHints

mutual

/-- Whether an expression refers to no node that was there before it. -/
def Expr.selfContained : Expr → Bool
  | .identifier _ | .string _ | .number _ | .path _ => true
  | .named _ value => value.selfContained
  | .closure body => Item.allSelfContained body
  | .call _ arguments => Expr.allSelfContained arguments
  | .trailing target body => target.selfContained && Item.allSelfContained body
  | .existing _ => false

def Expr.allSelfContained : List Expr → Bool
  | [] => true
  | e :: rest => e.selfContained && Expr.allSelfContained rest

def Item.allSelfContained : List Item → Bool
  | [] => true
  | item :: rest => item.selfContained && Item.allSelfContained rest

def Item.selfContained : Item → Bool
  | .text _ => true
  | .unlisted e | .statement e => e.selfContained

end

namespace Draft

theorem identifier_built {d : Draft} (wf : d.WellFormed) (name : String) :
    Built d (d.identifier name).1 (d.identifier name).2 :=
  (Grown.written wf name).cover (.identifier name ⟨d.offset, (d.write name).offset⟩) rfl rfl
    (callLaid_of_kind (by simp [NewNode.kind]))

theorem literal_built {d : Draft} (wf : d.WellFormed) (kind : LiteralKind) (shown value : String) :
    Built d (d.literal kind shown value).1 (d.literal kind shown value).2 :=
  (Grown.written wf shown).cover (.literal kind value ⟨d.offset, (d.write shown).offset⟩) rfl rfl
    (callLaid_of_kind (by cases kind <;> simp [NewNode.kind, LiteralKind.nodeKind]))

/-! ## Paths -/

/-- A name without a qualifier. -/
theorem pathName_built {d : Draft} (wf : d.WellFormed) (name : String) :
    Built d (d.pathName none name).1 (d.pathName none name).2 := by
  have b := identifier_built wf name
  obtain ⟨n, here, -, order, -⟩ := b.live List.mem_cons_self
  have some : (d.identifier name).1.isSome := by simp [identifier, write, add, Arena.nextRef]
  have span : (d.identifier name).2.arena.spanOf (.reference none (d.identifier name).1) =
      ⟨n.start, n.stop⟩ := Arena.spanOf_bare here
  have wfName : (d.identifier name).2.arena.WellFormed _ := b.wellFormed
  refine b.toGrown.wrap (.reference none (d.identifier name).1) ?_ ?_ ?_ ?_
    (callLaid_of_kind (by simp [NewNode.kind])) ?_
  · simp [NewNode.children, some]
  all_goals rw [span]
  · exact ⟨n, here, Nat.le_refl _, order, Nat.le_refl _⟩
  · exact (wfName.laid _ n here).start
  · exact (wfName.laid _ n here).stop
  · exact b.starts n here

/-- A name behind a qualifier and a dot. -/
theorem qualified_built {before d : Draft} {qualifier : NodeRef} (b : Built before qualifier d)
    (name : String) :
    Built before ((d.write ".").pathName qualifier name).1
      ((d.write ".").pathName qualifier name).2 := by
  have dotted : Built before qualifier (d.write ".") := ⟨b.toGrown.write ".", b.starts⟩
  have k := identifier_built dotted.wellFormed name
  obtain ⟨q, hereQ, -⟩ := dotted.live List.mem_cons_self
  obtain ⟨n, hereN, -⟩ := k.live List.mem_cons_self
  obtain ⟨i, rfl, -⟩ := Arena.index_lt_size hereQ
  refine Grown.pair dotted k (.reference (some i) ((d.write ".").identifier name).1) ?_
    (by simp [NewNode.kind]) ?_
  · obtain ⟨j, same, -⟩ := Arena.index_lt_size hereN
    simp [NewNode.children, same]
  · exact fun n m hereN hereM => Arena.spanOf_qualified hereN hereM

theorem pathNames_built {before d : Draft} {qualifier : NodeRef} (b : Built before qualifier d)
    (names : List String) :
    Built before (d.pathNames qualifier names).1 (d.pathNames qualifier names).2 := by
  induction names generalizing d qualifier with
  | nil => exact b
  | cons name rest ih => exact ih (qualified_built b name)

theorem path_built {d : Draft} (wf : d.WellFormed) (dotted : String) :
    Built d (d.path dotted).1 (d.path dotted).2 :=
  pathNames_built (pathName_built wf _) _

/-! ## Calls and closures -/

variable {d called written : Draft}

theorem offset_lt_write (d : Draft) (text : String) (h : 0 < Text.byteLength text.toList) :
    d.offset < (d.write text).offset := by
  rw [offset_write]
  omega

theorem separated_write (d : Draft) (before : List Char) {c : Char}
    (separator : c = '(' ∨ c = ' ') :
    Text.IsSeparated (d.write (String.ofList (before ++ [c]))).source.toList d.offset
      (d.write (String.ofList (before ++ [c]))).offset := by
  rw [offset_eq, offset_eq, text_write, String.toList_ofList]
  exact .of_written d.source.toList before separator

/-- The closure from the end of `d` to the brace that is written next. -/
def brace (d written : Draft) (statements : List NodeRef) : NodeRef × Draft :=
  let closed := written.write " \x7d"
  closed.add (.closure statements ⟨d.offset, closed.offset⟩)

def attach (d : Draft) (target closure : NodeRef) : Draft :=
  { d with arena := (d.arena.attachClosure target closure).2 }

/-- Statements between braces make a closure. -/
theorem closure_built (wf : d.WellFormed) {statements : List NodeRef}
    (g : Grown (d.write "\x7b ") statements written) :
    Built d (brace d written statements).1 (brace d written statements).2 := by
  have opened : Grown d statements written := (Grown.written wf "\x7b ").append g
  exact (opened.write " \x7d").cover _ rfl rfl (callLaid_of_kind (by simp [NewNode.kind]))

/-- A callee and arguments between parentheses make a call. -/
theorem call_built {callee : NodeRef} {arguments : List NodeRef} (b : Built d callee called)
    (g : Grown called arguments written)
    (row : written.arena.Row (Text.IsSeparated written.source.toList) called.offset arguments
      written.offset) :
    Built d ((written.write ")").add
        (.call callee arguments ⟨d.offset, (written.write ")").offset⟩)).1
      ((written.write ")").add
        (.call callee arguments ⟨d.offset, (written.write ")").offset⟩)).2 := by
  have all : Grown d (callee :: arguments) written := b.toGrown.append g
  have longer : written.offset < (written.write ")").offset :=
    offset_lt_write written ")" (by decide)
  refine (all.write ")").cover _ rfl rfl ?_
  intro c found
  rw [Arena.call?_newHeader] at found
  cases found
  obtain ⟨m, hereM, startM, -, stopM⟩ := b.live List.mem_cons_self
  have every : (⟨callee, arguments, []⟩ : Call).allArguments = arguments := List.append_nil _
  rw [text_write]
  refine ⟨⟨m, g.node _ _ hereM, startM, ?_⟩, ?_, by simp⟩
  · rw [every]
    exact ((row.lower (Arena.lax_separated _) stopM).raise (Nat.le_of_lt longer)).mono
      fun _ _ separated => separated.append _
  · intro r member k found
    rw [every] at member
    obtain ⟨k', here, -, order, stop⟩ := row.mem (Arena.lax_separated _) member
    change written.arena.node? r = some k at found
    rw [here] at found
    cases found
    exact Nat.lt_of_le_of_lt (Nat.le_trans order stop) longer

/-- A blank is between an expression and the closure behind it. -/
theorem closure_behind {target closure : NodeRef} {built : Draft} (b : Built d target called)
    (k : Built (called.write " ") closure built) {n : Node}
    (here : built.arena.node? target = some n) :
    Text.IsSeparated built.source.toList n.stop (called.write " ").offset := by
  obtain ⟨m, found, -, -, stop⟩ := b.live List.mem_cons_self
  have same := k.node target m found
  rw [here] at same
  cases same
  obtain ⟨more, text⟩ := k.text
  rw [text]
  exact ((separated_write called [] (.inr rfl)).lower stop).append more

theorem closure_nonempty {statements : List NodeRef}
    (g : Grown (d.write "\x7b ") statements written) :
    d.offset < (written.write " \x7d").offset := by
  have first := offset_lt_write d "\x7b " (by decide)
  have last := offset_lt_write written " \x7d" (by decide)
  have between := g.offset_le
  omega

/-- A closure behind a blank is attached to the expression in front of it. -/
theorem trailing_built {target : NodeRef} {statements : List NodeRef} (b : Built d target called)
    (g : Grown ((called.write " ").write "\x7b ") statements written) :
    let closure := brace (called.write " ") written statements
    Built d target (closure.2.attach target closure.1) := by
  have opened := b.wellFormed.write " "
  have k := closure_built opened g
  have all : Grown d ([target] ++ [_]) _ := (b.toGrown.write " ").append k.toGrown
  obtain ⟨n, here, -⟩ := b.live List.mem_cons_self
  refine Grown.attach all ?_ (Arena.node?_nextRef_add _ _) rfl (closure_nonempty g) ?_
  · intro n' found
    obtain rfl : n' = n := Option.some.inj (found.symm.trans (k.node target n here))
    exact b.starts n' here
  · intro n' found
    exact closure_behind b k found

/-- A closure behind a blank can be attached when it is a call that is in front of it. -/
theorem attachable_behind {target : NodeRef} {statements : List NodeRef} {n : Node}
    (b : Built d target called) (here : called.arena.node? target = some n) (call : n.kind = .call)
    (g : Grown ((called.write " ").write "\x7b ") statements written) :
    let closure := brace (called.write " ") written statements
    ∃ index m, target = some index ∧
      Arena.WellFormed.Attachable closure.2.arena closure.2.source.toList index closure.1 n m := by
  intro closure
  obtain ⟨index, rfl, -⟩ := Arena.index_lt_size here
  have k := closure_built (b.wellFormed.write " ") g
  have all : Grown d ([some index] ++ [closure.1]) closure.2 :=
    (b.toGrown.write " ").append k.toGrown
  have now := k.node _ n here
  exact ⟨index, _, rfl, now, Arena.node?_nextRef_add _ _, call, rfl, closure_behind b k now,
    closure_nonempty g, all.loose _ List.mem_cons_self,
    all.loose _ (List.mem_cons_of_mem _ List.mem_cons_self)⟩

/-- Nothing changes when it is another expression. -/
theorem attach_behind_other {target : NodeRef} {statements : List NodeRef} {n : Node}
    (b : Built d target called) (here : called.arena.node? target = some n) (other : n.kind ≠ .call)
    (g : Grown ((called.write " ").write "\x7b ") statements written) :
    let closure := brace (called.write " ") written statements
    closure.2.attach target closure.1 = closure.2 := by
  intro closure
  have k := closure_built (b.wellFormed.write " ") g
  rw [attach, Arena.attachClosure_other]
  intro n' found
  cases (k.node _ n here).symm.trans found
  exact other

/-- An argument behind a separator goes at the end of the arguments before it. -/
theorem argument_row {before : Draft} {place : NodeRef} {places : List NodeRef}
    {finished : Draft} (b : Built d place written)
    (lead : Text.IsSeparated d.source.toList before.offset d.offset)
    (g : Grown written places finished)
    (row : finished.arena.Row (Text.IsSeparated finished.source.toList) written.offset places
      finished.offset) :
    finished.arena.Row (Text.IsSeparated finished.source.toList) before.offset (place :: places)
      finished.offset := by
  obtain ⟨n, here, -, order, stop⟩ := b.live List.mem_cons_self
  obtain ⟨first, textB⟩ := b.text
  obtain ⟨second, textG⟩ := g.text
  refine ⟨n, g.node _ _ here, ?_, order, row.lower (Arena.lax_separated _) stop⟩
  rw [b.starts n here, textG, textB]
  exact (lead.append first).append second

mutual

theorem expr_built (d : Draft) (wf : d.WellFormed) (e : Expr) (own : e.selfContained) :
    Built d (d.expr e).1 (d.expr e).2 := by
  cases e with
  | identifier name => exact identifier_built wf name
  | string value => exact literal_built wf .string _ value
  | number digits => exact literal_built wf .numeric digits digits
  | path dotted => exact path_built wf dotted
  | named label value =>
      have b := identifier_built wf label
      have labelled : Built d (d.identifier label).1 ((d.identifier label).2.write ": ") :=
        ⟨b.toGrown.write ": ", b.starts⟩
      have k := expr_built _ labelled.wellFormed value own
      exact Grown.pair labelled k (.namedArgument _ _) rfl (by simp [NewNode.kind])
        fun n m hereN hereM => Arena.spanOf_namedArgument hereN hereM
  | closure body => exact closure_built wf (items_grown _ (wf.write _) body own)
  | call callee arguments =>
      have b := path_built wf callee
      obtain ⟨g, row⟩ := arguments_grown (d.path callee).2 _ true (Grown.written b.wellFormed "(")
        (fun _ => separated_write _ [] (.inl rfl)) arguments own
      exact call_built b g row
  | trailing target body =>
      rw [Expr.selfContained, Bool.and_eq_true] at own
      obtain ⟨ownTarget, ownBody⟩ := own
      have b := expr_built d wf target ownTarget
      have opened := b.wellFormed.write " "
      exact trailing_built b (items_grown _ (opened.write _) body ownBody)
  | existing place => cases own
termination_by sizeOf e

theorem arguments_grown (before d : Draft) (first : Bool) (g : Grown before [] d)
    (lead : first → Text.IsSeparated d.source.toList before.offset d.offset) (es : List Expr)
    (own : Expr.allSelfContained es) :
    Grown before (d.arguments first es).1 (d.arguments first es).2 ∧
      (d.arguments first es).2.arena.Row
        (Text.IsSeparated (d.arguments first es).2.source.toList) before.offset
        (d.arguments first es).1 (d.arguments first es).2.offset := by
  cases es with
  | nil => exact ⟨g, g.offset_le⟩
  | cons e rest =>
      rw [Expr.allSelfContained, Bool.and_eq_true] at own
      cases first with
      | true =>
          have b := expr_built d g.wellFormed e own.1
          obtain ⟨k, row⟩ := arguments_grown _ _ false (.refl b.wellFormed) (by simp) rest own.2
          exact ⟨(g.append b.toGrown).append k, argument_row b (lead rfl) k row⟩
      | false =>
          have b := expr_built (d.write ", ") (g.write ", ").wellFormed e own.1
          obtain ⟨k, row⟩ := arguments_grown _ _ false (.refl b.wellFormed) (by simp) rest own.2
          exact ⟨((g.write ", ").append b.toGrown).append k,
            argument_row b ((separated_write d [','] (.inr rfl)).lower g.offset_le) k row⟩
termination_by sizeOf es

theorem items_grown (d : Draft) (wf : d.WellFormed) (is : List Item)
    (own : Item.allSelfContained is) : Grown d (d.items is).1 (d.items is).2 := by
  cases is with
  | nil => exact .refl wf
  | cons item rest =>
      rw [Item.allSelfContained, Bool.and_eq_true] at own
      have first := item_grown d wf item own.1
      exact first.append (items_grown _ first.wellFormed rest own.2)
termination_by sizeOf is

theorem item_grown (d : Draft) (wf : d.WellFormed) (item : Item) (own : item.selfContained) :
    Grown d (d.item item).1 (d.item item).2 := by
  cases item with
  | text text => exact .written wf text
  | unlisted e =>
      have b : Grown d ([] ++ [(d.expr e).1]) (d.expr e).2 := (expr_built d wf e own).toGrown
      exact b.left
  | statement e => exact (expr_built d wf e own).toGrown
termination_by sizeOf item

end

theorem arguments_wellFormed {d : Draft} (wf : d.WellFormed) (first : Bool) (es : List Expr)
    (own : Expr.allSelfContained es) : (d.arguments first es).2.WellFormed := by
  cases es with
  | nil => exact wf
  | cons e rest =>
      rw [Expr.allSelfContained, Bool.and_eq_true] at own
      have others (d : Draft) (wf : d.WellFormed) :
          ((d.expr e).2.arguments false rest).2.WellFormed :=
        arguments_wellFormed (expr_built d wf e own.1).wellFormed false rest own.2
      cases first with
      | true => exact others d wf
      | false => exact others _ (wf.write ", ")
termination_by sizeOf es

/-! ## Whole files -/

/-- The draft that a source file is made of, with the node over all of it. -/
def finished (list : List Item) : Draft :=
  let (statements, d) := Draft.empty.items list
  (d.add (.sourceFile statements ⟨0, d.offset⟩)).2

theorem finished_built (list : List Item) (own : Item.allSelfContained list) :
    Built .empty (SyntaxTree.ofItems list).root (finished list) :=
  (items_grown .empty .empty list own).cover _ rfl rfl (callLaid_of_kind (by simp [NewNode.kind]))

end Draft

namespace SyntaxTree

theorem wellFormed_ofItems (list : List Item) (own : Item.allSelfContained list) :
    (ofItems list).arena.WellFormed (ofItems list).source.toList :=
  (Draft.finished_built list own).wellFormed

end SyntaxTree

end ParameterHints
