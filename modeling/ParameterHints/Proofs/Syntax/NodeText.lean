import ParameterHints.Proofs.Syntax.Legible

/-! # Texts of constructed nodes

Every expression is drawn by its construction: what is written is the text of its node. This takes
that closures stand behind calls only, since a closure behind anything else is attached to nothing
and belongs to no text but that around it.
-/

namespace ParameterHints

/-- Whether an expression is a call, with or without closures behind it. -/
def Expr.isCall : Expr → Bool
  | .call .. => true
  | .trailing target _ => target.isCall
  | _ => false

mutual

/-- Whether closures stand behind calls only. -/
def Expr.closesCalls : Expr → Bool
  | .identifier _ | .string _ | .number _ | .path _ | .existing _ => true
  | .named _ value => value.closesCalls
  | .closure body => Item.allCloseCalls body
  | .call _ arguments => Expr.allCloseCalls arguments
  | .trailing target body =>
      target.isCall && target.closesCalls && Item.allCloseCalls body

def Expr.allCloseCalls : List Expr → Bool
  | [] => true
  | e :: rest => e.closesCalls && Expr.allCloseCalls rest

def Item.allCloseCalls : List Item → Bool
  | [] => true
  | item :: rest => item.closesCalls && Item.allCloseCalls rest

def Item.closesCalls : Item → Bool
  | .text _ => true
  | .unlisted e | .statement e => e.closesCalls

end

/-- One more closure behind a call comes with a blank. -/
theorem Content.Renders.snoc {part : NodeRef → List Char → Prop} {c : Call} {shown body : List Char}
    {closure : NodeRef} (h : (Content.call c).Renders part shown) (k : part closure body) :
    (Content.call { c with closures := c.closures ++ [closure] }).Renders part
      (shown ++ ' ' :: body) := by
  cases h with
  | @call callee arguments closures before shown bodies first list behind =>
      have longer := List.rel_append behind (.cons k .nil)
      have rendered := Content.Renders.call first list longer
      simpa using rendered

namespace Draft

variable {before d after called written : Draft} {r target : NodeRef} {shown body : List Char}
  {statements : List NodeRef}

theorem Shows.slice (h : d.Shows r shown) :
    ∃ n, d.arena.node? r = some n ∧ Text.slice d.source.toList n.start n.stop = some shown := by
  obtain ⟨n, front, rest, here, split, start, stop⟩ := h
  refine ⟨n, here, ?_⟩
  rw [split, ← start, ← stop]
  exact Text.slice_append front shown rest

theorem Shows.unique {other : List Char} (h : d.Shows r shown) (k : d.Shows r other) :
    shown = other := by
  obtain ⟨n, here, cut⟩ := h.slice
  obtain ⟨m, there, cut'⟩ := k.slice
  rw [here] at there
  cases there
  rw [cut] at cut'
  exact Option.some.inj cut'

theorem named_drawn {label value : NodeRef} {text : List Char} (b : Drawn d label called shown)
    (k : Drawn (called.write ": ") value written text) :
    Drawn d (written.add (.namedArgument label value)).1
      (written.add (.namedArgument label value)).2 (shown ++ ':' :: ' ' :: text) := by
  have labelled : Built d label (called.write ": ") := ⟨b.toGrown.write ": ", b.starts⟩
  have built := Grown.pair labelled k.toBuilt (.namedArgument label value) rfl
    (by simp [NewNode.kind]) fun n m hereN hereM => Arena.spanOf_namedArgument hereN hereM
  refine built.draw k.wellFormed k.legible ?_ ?_ ?_ (by simp [NewNode.content])
  · rw [k.written, text_write, b.written]
    simp
  · obtain ⟨n, hereN, -⟩ := labelled.live List.mem_cons_self
    obtain ⟨m, hereM, -⟩ := k.live List.mem_cons_self
    rw [Arena.spanOf_namedArgument (k.node label n hereN) hereM]
    exact k.ends m hereM
  · exact .namedArgument ((b.shows.grown (.written b.wellFormed ": ")).grown k.toGrown) k.shows

theorem closure_drawn (wf : d.WellFormed) (g : Grown (d.write "\x7b ") statements written)
    (legible : written.Legible) :
    ∃ text, Drawn d (brace d written statements).1 (brace d written statements).2 text := by
  obtain ⟨body, text⟩ := g.text
  refine ⟨'\x7b' :: ' ' :: body ++ [' ', '\x7d'], ?_⟩
  refine (closure_built wf g).draw (g.wellFormed.write _) (legible.write _) ?_ rfl
    (.closure statements body) (by simp [NewNode.content])
  rw [text_write, text, text_write]
  simp

theorem intercalate_cons {α : Type} (separator first : List α) (rest : List (List α)) :
    separator.intercalate (first :: rest) = first ++ rest.flatMap (separator ++ ·) := by
  induction rest generalizing first with
  | nil => simp
  | cons next rest ih => rw [List.intercalate_cons_cons, ih, List.flatMap_cons]; simp

/-- What arguments look like behind a parenthesis, or behind other arguments. -/
def separated (first : Bool) (texts : List (List Char)) : List Char :=
  if first then [',', ' '].intercalate texts else texts.flatMap ([',', ' '] ++ ·)

theorem call_drawn {callee : NodeRef} {arguments : List NodeRef} {texts : List (List Char)}
    (b : Drawn d callee called shown) (g : Grown called arguments written)
    (row : written.arena.Row (Text.IsSeparated written.source.toList) called.offset arguments
      written.offset)
    (legible : written.Legible) (listed : List.Forall₂ written.Shows arguments texts)
    (text : written.source.toList =
      (called.write "(").source.toList ++ separated true texts) :
    let closed := written.write ")"
    let call := closed.add (.call callee arguments ⟨d.offset, closed.offset⟩)
    Drawn d call.1 call.2 (shown ++ '(' :: [',', ' '].intercalate texts ++ [')']) := by
  intro closed call
  refine (call_built b.toBuilt g row).draw (g.wellFormed.write _) (legible.write _) ?_ rfl ?_
    (by simp [NewNode.content])
  · rw [text_write, text, text_write, b.written]
    simp [separated]
  · have longer : Grown written [] closed := .written g.wellFormed ")"
    have first := (b.shows.grown g).grown longer
    have others := listed.imp fun r shown here => Shows.grown here longer
    exact .call first others .nil

/-! ## Closures behind calls -/

section Attachment

variable {index : Nat} {closure : NodeRef} {n m : Node}

theorem Legible.attach (legible : d.Legible) (wf : d.WellFormed)
    (h : Arena.WellFormed.Attachable d.arena d.source.toList index closure n m)
    (old : d.Shows (some index) shown) (behind : d.Shows closure body)
    (shows : (d.attach (some index) closure).Shows (some index) (shown ++ ' ' :: body)) :
    (d.attach (some index) closure).Legible := by
  have kept := Keeps.attach wf h
  have wf : d.arena.WellFormed d.source.toList := wf
  intro r k now
  by_cases self : r = some index
  · subst self
    obtain ⟨text, reads⟩ := legible _ n h.here
    obtain rfl := reads.shows.unique old
    obtain ⟨c, held, made⟩ := reads.made
    obtain ⟨c', held', after⟩ := wf.contentAt?_attach_self h
    rw [held] at held'
    cases held'
    refine ⟨text ++ ' ' :: body, shows, ⟨_, after, ?_⟩, ?_⟩
    · refine (made.snoc behind).congr fun r member text here => ?_
      refine here.extend kept.text fun n => kept.node r n ?_
      rintro rfl
      have parts : (Content.call { c' with closures := c'.closures ++ [closure] }).children =
          (Content.call c').children ++ [closure] := by
        simp [Content.children, Call.allArguments]
      rw [parts, ← Arena.children_of_contentAt? held] at member
      rcases List.mem_append.mp member with child | same
      · exact h.loose _ child
      · exact Arena.WellFormed.closure_ne_call h (List.mem_singleton.mp same).symm
    · intro reference
      rw [Arena.referenceAt?_eq, attach, after] at reference
      cases reference
  · have here : d.arena.node? r = some k := by
      have now : (d.arena.attachClosure (some index) closure).2.node? r = some k := now
      rwa [wf.node?_attach h, if_neg self] at now
    obtain ⟨text, reads⟩ := legible r k here
    refine ⟨text, kept.reads reads self ?_⟩
    rintro c child rfl
    exact h.loose r child

end Attachment

theorem trailing_drawn (b : Drawn d target called shown)
    (call : (called.arena.node? target).map Node.kind = some .call)
    (g : Grown ((called.write " ").write "\x7b ") statements written) (legible : written.Legible) :
    let closure := brace (called.write " ") written statements
    ∃ text, Drawn d target (closure.2.attach target closure.1) text := by
  intro closure
  obtain ⟨body, k⟩ := closure_drawn (b.wellFormed.write " ") g legible
  obtain ⟨n, here, -⟩ := b.live List.mem_cons_self
  rw [here] at call
  obtain ⟨index, m, rfl, h⟩ := attachable_behind b.toBuilt here (Option.some.inj call) g
  have built := trailing_built b.toBuilt g
  have written : closure.2.source.toList = d.source.toList ++ (shown ++ ' ' :: body) := by
    rw [k.written, text_write, b.written]
    simp
  have old := (b.shows.grown (.written b.wellFormed " ")).grown k.toGrown
  have ends (n' : Node) (found : (closure.2.attach (some index) closure.1).arena.node?
      (some index) = some n') : n'.stop = closure.2.offset := by
    have now := Arena.WellFormed.node?_attach k.wellFormed h (some index)
    rw [if_pos rfl] at now
    cases now.symm.trans found
    exact k.ends m h.there
  exact ⟨_, built, k.legible.attach k.wellFormed h old k.shows (built.shows written ends), written,
    ends⟩

/-! ## All expressions -/

theorem argument_drawn {place : NodeRef} {places : List NodeRef} {finished : Draft}
    {texts : List (List Char)} (b : Drawn d place written shown) (g : Grown written places finished)
    (listed : List.Forall₂ finished.Shows places texts)
    (text : finished.source.toList = written.source.toList ++ separated false texts) :
    List.Forall₂ finished.Shows (place :: places) (shown :: texts) ∧
      finished.source.toList = d.source.toList ++ separated true (shown :: texts) := by
  refine ⟨.cons (b.shows.grown g) listed, ?_⟩
  rw [text, b.written]
  simp [separated, intercalate_cons]

/-- The place of a call with closures behind it is that of the call. -/
theorem kind_expr (d : Draft) (wf : d.WellFormed) (e : Expr) (own : e.selfContained)
    (call : e.isCall) :
    ((d.expr e).2.arena.node? (d.expr e).1).map Node.kind = some .call := by
  cases e with
  | call callee arguments => exact congrArg _ (Arena.node?_nextRef_add _ _)
  | trailing target body =>
      rw [Expr.selfContained, Bool.and_eq_true] at own
      have target := kind_expr d wf target own.1 call
      have b := expr_built d wf _ own.1
      have opened := b.wellFormed.write " "
      have k := closure_built opened (items_grown _ (opened.write _) body own.2)
      obtain ⟨n, here, -⟩ := b.live List.mem_cons_self
      rw [here] at target
      have now := congrArg (Option.map Node.kind) (k.node _ n here)
      exact (Arena.kind_attachClosure _ _ _ _).trans (now.trans target)
  | _ => cases call
termination_by sizeOf e

mutual

theorem expr_drawn (d : Draft) (wf : d.WellFormed) (legible : d.Legible) (e : Expr)
    (own : e.selfContained) (closes : e.closesCalls) :
    ∃ text, Drawn d (d.expr e).1 (d.expr e).2 text := by
  cases e with
  | identifier name => exact ⟨_, identifier_drawn wf legible name⟩
  | string value =>
      refine ⟨_, literal_drawn wf legible .string _ value ?_⟩
      simpa using Content.Renders.string value
  | number digits => exact ⟨_, literal_drawn wf legible .numeric digits digits (.number digits)⟩
  | path dotted => exact path_drawn wf legible dotted
  | named label value =>
      have b := identifier_drawn wf legible label
      have legible := b.legible.write ": "
      obtain ⟨text, k⟩ := expr_drawn _ (b.wellFormed.write _) legible value own closes
      exact ⟨_, named_drawn b k⟩
  | closure body =>
      have g := items_grown _ (wf.write "\x7b ") body own
      exact closure_drawn wf g (items_legible _ (wf.write _) (legible.write _) body own closes)
  | call callee arguments =>
      obtain ⟨shown, b⟩ := path_drawn wf legible callee
      obtain ⟨g, row⟩ := arguments_grown (d.path callee).2 _ true (Grown.written b.wellFormed "(")
        (fun _ => separated_write _ [] (.inl rfl)) arguments own
      obtain ⟨texts, read, listed, text⟩ :=
        arguments_drawn _ (b.wellFormed.write "(") (b.legible.write _) true arguments own closes
      exact ⟨_, call_drawn b g row read listed text⟩
  | trailing target body =>
      rw [Expr.selfContained, Bool.and_eq_true] at own
      rw [Expr.closesCalls, Bool.and_eq_true, Bool.and_eq_true] at closes
      obtain ⟨⟨call, closesTarget⟩, closesBody⟩ := closes
      obtain ⟨shown, b⟩ := expr_drawn d wf legible target own.1 closesTarget
      have opened := (b.wellFormed.write " ").write "\x7b "
      have legible := (b.legible.write " ").write "\x7b "
      exact trailing_drawn b (kind_expr d wf target own.1 call) (items_grown _ opened body own.2)
        (items_legible _ opened legible body own.2 closesBody)
  | existing place => cases own
termination_by sizeOf e

theorem arguments_drawn (d : Draft) (wf : d.WellFormed) (legible : d.Legible) (first : Bool)
    (es : List Expr) (own : Expr.allSelfContained es) (closes : Expr.allCloseCalls es) :
    ∃ texts, (d.arguments first es).2.Legible ∧
      List.Forall₂ (d.arguments first es).2.Shows (d.arguments first es).1 texts ∧
      (d.arguments first es).2.source.toList = d.source.toList ++ separated first texts := by
  cases es with
  | nil => exact ⟨[], legible, .nil, by cases first <;> simp [arguments, separated]⟩
  | cons e rest =>
      rw [Expr.allSelfContained, Bool.and_eq_true] at own
      rw [Expr.allCloseCalls, Bool.and_eq_true] at closes
      have one (d : Draft) (wf : d.WellFormed) (legible : d.Legible) :
          ∃ text texts, ((d.expr e).2.arguments false rest).2.Legible ∧
            List.Forall₂ ((d.expr e).2.arguments false rest).2.Shows
              ((d.expr e).1 :: ((d.expr e).2.arguments false rest).1) (text :: texts) ∧
            ((d.expr e).2.arguments false rest).2.source.toList =
              d.source.toList ++ separated true (text :: texts) := by
        obtain ⟨text, b⟩ := expr_drawn d wf legible e own.1 closes.1
        obtain ⟨texts, read, listed, more⟩ :=
          arguments_drawn _ b.wellFormed b.legible false rest own.2 closes.2
        have g := (arguments_grown _ _ false (.refl b.wellFormed) (by simp) rest own.2).1
        exact ⟨text, texts, read, argument_drawn b g listed more⟩
      cases first with
      | true =>
          obtain ⟨text, texts, drawn⟩ := one d wf legible
          exact ⟨text :: texts, drawn⟩
      | false =>
          obtain ⟨text, texts, read, listed, more⟩ := one _ (wf.write ", ") (legible.write _)
          refine ⟨text :: texts, read, listed, more.trans ?_⟩
          simp [separated, intercalate_cons]
termination_by sizeOf es

theorem items_legible (d : Draft) (wf : d.WellFormed) (legible : d.Legible) (is : List Item)
    (own : Item.allSelfContained is) (closes : Item.allCloseCalls is) :
    (d.items is).2.Legible := by
  cases is with
  | nil => exact legible
  | cons item rest =>
      rw [Item.allSelfContained, Bool.and_eq_true] at own
      rw [Item.allCloseCalls, Bool.and_eq_true] at closes
      have first := item_legible d wf legible item own.1 closes.1
      exact items_legible _ (item_grown d wf item own.1).wellFormed first rest own.2 closes.2
termination_by sizeOf is

theorem item_legible (d : Draft) (wf : d.WellFormed) (legible : d.Legible) (item : Item)
    (own : item.selfContained) (closes : item.closesCalls) : (d.item item).2.Legible := by
  cases item with
  | text text => exact legible.write text
  | unlisted e | statement e =>
      obtain ⟨_, b⟩ := expr_drawn d wf legible e own closes
      exact b.legible
termination_by sizeOf item

end

end Draft

/-! ## Whole files -/

namespace SyntaxTree

/-- The text between the ends of a node. -/
def textAt? (t : SyntaxTree) (r : NodeRef) : Option (List Char) :=
  (t.arena.node? r).bind fun n => Text.slice t.source.toList n.start n.stop

/-- The root covers the source, all other nodes have the texts that were written for them, and
    that of a reference is its path. -/
structure Readable (t : SyntaxTree) : Prop where
  root : t.textAt? t.root = some t.source.toList
  nodes : ∀ r, (t.arena.node? r).isSome → r ≠ t.root →
    ∃ c shown, t.arena.contentAt? r = some c ∧ t.textAt? r = some shown ∧
      c.Renders (fun part shown => t.textAt? part = some shown) shown
  paths : ∀ r, (t.arena.referenceAt? r).isSome →
    ∃ shown, t.textAt? r = some shown ∧ t.arena.path? r = some (String.ofList shown)

variable {list : List Item}

theorem textAt?_of_shows {r : NodeRef} {shown : List Char}
    (h : (Draft.finished list).Shows r shown) : (ofItems list).textAt? r = some shown := by
  obtain ⟨n, here, cut⟩ := h.slice
  exact Option.bind_eq_some_iff.mpr ⟨n, here, cut⟩

/-- In a tree whose closures stand behind calls only, every node has the text that was written
    for it. -/
theorem ofItems_readable (list : List Item) (own : Item.allSelfContained list)
    (closes : Item.allCloseCalls list) : (ofItems list).Readable := by
  have wf := wellFormed_ofItems list own
  have before := (Draft.items_grown .empty .empty list own).wellFormed
  have legible := Draft.items_legible .empty .empty .empty list own closes
  have reads (r : NodeRef) (n : Node) (here : (ofItems list).arena.node? r = some n)
      (other : r ≠ (ofItems list).root) : ∃ shown, (Draft.finished list).Reads r shown := by
    rcases Arena.node?_add_cases here with old | ⟨new, -⟩
    · obtain ⟨shown, reads⟩ := legible r n old
      exact ⟨shown, (Draft.Keeps.add before _).reads reads trivial fun _ _ => trivial⟩
    · exact absurd new other
  refine ⟨?_, ?_, ?_⟩
  · refine textAt?_of_shows ((Draft.finished_built list own).shows rfl ?_)
    intro n here
    cases (Arena.node?_nextRef_add _ _).symm.trans here
    rfl
  · intro r live other
    obtain ⟨n, here⟩ := Option.isSome_iff_exists.mp live
    obtain ⟨shown, reads⟩ := reads r n here other
    obtain ⟨c, held, made⟩ := reads.made
    exact ⟨c, shown, held, textAt?_of_shows reads.shows,
      made.congr fun _ _ _ there => textAt?_of_shows there⟩
  · intro r reference
    obtain ⟨data, found⟩ := Option.isSome_iff_exists.mp reference
    obtain ⟨n, here⟩ := Option.isSome_iff_exists.mp (Arena.live_of_reference found)
    have other : r ≠ (ofItems list).root := by
      rintro rfl
      have root : (ofItems list).arena.contentAt? (ofItems list).root = _ :=
        Draft.contentAt?_add _ _
      rw [Arena.referenceAt?_eq, root] at found
      cases found
    obtain ⟨shown, reads⟩ := reads r n here other
    exact ⟨shown, textAt?_of_shows reads.shows,
      Arena.path?_iff_spells.mpr (reads.path reference)⟩

/-- Closures behind a call and behind the value of one of its arguments. -/
def closuresBehindCalls : List Item :=
  [.text "é\r\n", .statement (.trailing
    (.trailing (.call "a.b" [.named "k" (.trailing (.call "f" []) []), .string "ä"])
      [.statement (.identifier "x")])
    [.unlisted (.closure []), .text ";", .statement (.trailing (.call "" [.number ""]) [])])]

theorem closuresBehindCalls_readable :
    (ofItems closuresBehindCalls).Readable ∧
      (ofItems closuresBehindCalls).textAt? (some 11) =
        some "a.b(k: f() {  }, \"ä\") { x } { {  };() {  } }".toList :=
  ⟨ofItems_readable closuresBehindCalls rfl rfl, by decide +kernel⟩

end SyntaxTree

end ParameterHints
