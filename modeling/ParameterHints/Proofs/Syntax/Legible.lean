import Mathlib.Data.List.Forall2
import ParameterHints.Proofs.Syntax.Kept

/-! # The text of nodes

The text between the ends of a node is what was written for it, and it is made of the texts of its
parts. It stays so while more is written, and when a closure is attached to a call, the text of the
call is the old one with a blank and the closure behind it.
-/

namespace ParameterHints

/-- How the text of a node is made of the texts of its parts. -/
inductive Content.Renders (part : NodeRef → List Char → Prop) : Content → List Char → Prop where
  | identifier (text : String) : Renders part (.identifier text) text.toList
  | number (digits : String) : Renders part (.literal .numeric digits) digits.toList
  | string (value : String) :
      Renders part (.literal .string value) ('"' :: value.toList ++ ['"'])
  | name {name shown} : part (some name) shown →
      Renders part (.reference ⟨none, some name⟩) shown
  | qualified {qualifier name before shown} : part (some qualifier) before →
      part (some name) shown →
      Renders part (.reference ⟨some qualifier, some name⟩) (before ++ '.' :: shown)
  | namedArgument {label value before shown} : part label before → part value shown →
      Renders part (.namedArgument ⟨label, value⟩) (before ++ ':' :: ' ' :: shown)
  | call {callee arguments closures before shown bodies} : part callee before →
      List.Forall₂ part arguments shown → List.Forall₂ part closures bodies →
      Renders part (.call ⟨callee, arguments, closures⟩)
        (before ++ '(' :: [',', ' '].intercalate shown ++ ')' ::
          bodies.flatMap fun body => ' ' :: body)
  | closure (statements body) :
      Renders part (.closure statements) ('\x7b' :: ' ' :: body ++ [' ', '\x7d'])

theorem forall₂_of_mem {α β : Type} {part part' : α → β → Prop} {xs : List α} {ys : List β}
    (h : List.Forall₂ part xs ys) (parts : ∀ x ∈ xs, ∀ y, part x y → part' x y) :
    List.Forall₂ part' xs ys := by
  induction h with
  | nil => exact .nil
  | cons here _ ih =>
      refine .cons (parts _ List.mem_cons_self _ here) (ih ?_)
      intro x member
      exact parts x (List.mem_cons_of_mem _ member)

/-- The text depends on nothing but the texts of the children. -/
theorem Content.Renders.congr {part part' : NodeRef → List Char → Prop} {c : Content}
    {shown : List Char} (h : c.Renders part shown)
    (parts : ∀ r ∈ c.children, ∀ shown, part r shown → part' r shown) :
    c.Renders part' shown := by
  cases h with
  | identifier | number | string | closure => constructor
  | name here => exact .name (parts _ (by simp [children]) _ here)
  | qualified before here =>
      have front := parts _ (by simp [children]) _ before
      exact .qualified front (parts _ (by simp [children]) _ here)
  | namedArgument before here =>
      have front := parts _ (by simp [children]) _ before
      exact .namedArgument front (parts _ (by simp [children]) _ here)
  | call callee arguments closures =>
      refine .call (parts _ (by simp [children]) _ callee) ?_ ?_
      · apply forall₂_of_mem arguments
        intro r member
        exact parts r (by simp [children, Call.allArguments, member])
      · apply forall₂_of_mem closures
        intro r member
        exact parts r (by simp [children, Call.allArguments, member])

namespace Arena

theorem stop_spanOf_reference {a : Arena} (qualifier : NodeRef) {name : NodeRef} {n : Node}
    (here : a.node? name = some n) : (a.spanOf (.reference qualifier name)).stop = n.stop := by
  simp [spanOf, referenceSpan, here]

end Arena

namespace Draft

variable {before d after called written : Draft} {r place : NodeRef} {shown : List Char}

/-- The text between the ends of the node at a place. -/
def Shows (d : Draft) (r : NodeRef) (shown : List Char) : Prop :=
  ∃ n front rest, d.arena.node? r = some n ∧ d.source.toList = front ++ (shown ++ rest) ∧
    Text.byteLength front = n.start ∧ Text.byteLength front + Text.byteLength shown = n.stop

/-- A node has a text, which is made of the texts of its parts, and a reference spells it. -/
structure Reads (d : Draft) (r : NodeRef) (shown : List Char) : Prop where
  shows : d.Shows r shown
  made : ∃ c, d.arena.contentAt? r = some c ∧ c.Renders d.Shows shown
  path : (d.arena.referenceAt? r).isSome → d.arena.Spells r (String.ofList shown)

def Legible (d : Draft) : Prop := ∀ r n, d.arena.node? r = some n → ∃ shown, d.Reads r shown

theorem Shows.extend (h : before.Shows r shown)
    (text : ∃ more, after.source.toList = before.source.toList ++ more)
    (node : ∀ n, before.arena.node? r = some n → after.arena.node? r = some n) :
    after.Shows r shown := by
  obtain ⟨n, front, rest, here, split, start, stop⟩ := h
  obtain ⟨more, longer⟩ := text
  refine ⟨n, front, rest ++ more, node n here, ?_, start, stop⟩
  simp [longer, split]

theorem Shows.grown {places : List NodeRef} (h : before.Shows r shown)
    (g : Grown before places after) : after.Shows r shown :=
  h.extend g.text (g.node r)

namespace Keeps

variable {kept : NodeRef → Prop}

theorem reads (k : Keeps kept before after) (h : before.Reads r shown) (self : kept r)
    (parts : ∀ c ∈ before.arena.children r, kept c) : after.Reads r shown := by
  have ⟨n, _, _, here, _⟩ := h.shows
  have same := k.contentAt? self here
  refine ⟨h.shows.extend k.text fun n => k.node r n self, ?_, ?_⟩
  · obtain ⟨c, content, made⟩ := h.made
    refine ⟨c, by rw [same, content], made.congr ?_⟩
    intro s member text there
    rw [← Arena.children_of_contentAt? content] at member
    exact there.extend k.text fun n => k.node s n (parts s member)
  · intro reference
    rw [Arena.referenceAt?_eq, same, ← Arena.referenceAt?_eq] at reference
    exact k.spells r _ (h.path reference)

end Keeps

theorem Legible.empty : Draft.empty.Legible := by
  intro r n here
  cases r <;> simp [Arena.node?, Draft.empty, Arena.empty] at here

theorem Legible.write (h : d.Legible) (text : String) : (d.write text).Legible := by
  intro r n here
  obtain ⟨shown, reads⟩ := h r n here
  exact ⟨shown, (Keeps.write d text).reads reads trivial fun _ _ => trivial⟩

/-- One node that reads as it should may be added. -/
theorem Legible.add (h : d.Legible) (wf : d.WellFormed) (x : NewNode)
    (reads : (d.add x).2.Reads d.arena.nextRef shown) : (d.add x).2.Legible := by
  intro r n here
  rcases Arena.node?_add_cases here with old | ⟨rfl, -⟩
  · obtain ⟨text, reads⟩ := h r n old
    exact ⟨text, (Keeps.add wf x).reads reads trivial fun _ _ => trivial⟩
  · exact ⟨shown, reads⟩

/-- `after` continues `before` by exactly the text of one node. -/
structure Drawn (before : Draft) (place : NodeRef) (after : Draft) (shown : List Char) : Prop
    extends Built before place after where
  legible : after.Legible
  written : after.source.toList = before.source.toList ++ shown
  ends : ∀ n, after.arena.node? place = some n → n.stop = after.offset

theorem Built.shows (b : Built before place after)
    (written : after.source.toList = before.source.toList ++ shown)
    (ends : ∀ n, after.arena.node? place = some n → n.stop = after.offset) :
    after.Shows place shown := by
  obtain ⟨n, here, -⟩ := b.live List.mem_cons_self
  refine ⟨n, before.source.toList, [], here, by simpa using written, ?_, ?_⟩
  · rw [b.starts n here, offset_eq]
  · rw [ends n here, offset_eq, written, Text.byteLength_append]

theorem Drawn.shows (b : Drawn before place after shown) : after.Shows place shown :=
  b.toBuilt.shows b.written b.ends

/-- A new node is drawn when its text ends with all that was written. -/
theorem Built.draw {x : NewNode} (b : Built before (d.add x).1 (d.add x).2) (wf : d.WellFormed)
    (legible : d.Legible) (written : d.source.toList = before.source.toList ++ shown)
    (stop : (d.arena.spanOf x).stop = d.offset) (made : x.content.Renders d.Shows shown)
    (path : ∀ data, x.content = .reference data →
      (d.add x).2.arena.Spells (d.add x).1 (String.ofList shown)) :
    Drawn before (d.add x).1 (d.add x).2 shown := by
  have ends : ∀ n, (d.add x).2.arena.node? (d.add x).1 = some n → n.stop = (d.add x).2.offset := by
    intro n here
    cases (Arena.node?_nextRef_add d.arena x).symm.trans here
    exact stop
  refine ⟨b, legible.add wf x ⟨b.shows written ends, ⟨x.content, contentAt?_add d x, ?_⟩, ?_⟩,
    written, ends⟩
  · refine made.congr fun r _ text there => ?_
    exact there.extend (Keeps.add wf x).text fun n => (Keeps.add wf x).node r n trivial
  · intro reference
    obtain ⟨data, found⟩ := Option.isSome_iff_exists.mp reference
    have held := contentAt?_add d x
    change (d.arena.add x).contentAt? d.arena.nextRef = _ at held
    change (d.arena.add x).referenceAt? d.arena.nextRef = _ at found
    rw [Arena.referenceAt?_eq, held, Option.bind_some] at found
    cases holds : x.content with
    | reference data => exact path data holds
    | _ => simp [holds, Content.reference?] at found

theorem identifier_drawn (wf : d.WellFormed) (legible : d.Legible) (name : String) :
    Drawn d (d.identifier name).1 (d.identifier name).2 name.toList :=
  (identifier_built wf name).draw (wf.write name) (legible.write name) (text_write d name) rfl
    (.identifier name) (by simp [NewNode.content])

theorem literal_drawn (wf : d.WellFormed) (legible : d.Legible) (kind : LiteralKind)
    (text value : String)
    (made : (Content.literal kind value).Renders (d.write text).Shows text.toList) :
    Drawn d (d.literal kind text value).1 (d.literal kind text value).2 text.toList :=
  (literal_built wf kind text value).draw (wf.write text) (legible.write text) (text_write d text)
    rfl made (by simp [NewNode.content])

/-! ## Paths -/

theorem identifierAt?_identifier (d : Draft) (name : String) :
    (d.identifier name).2.arena.identifierAt? (d.identifier name).1 = some name := by
  rw [Arena.identifierAt?_eq]
  exact congrArg (Option.bind · Content.identifier?)
    (contentAt?_add (d.write name) (.identifier name ⟨d.offset, (d.write name).offset⟩))

theorem referenceAt?_reference (d : Draft) (qualifier name : NodeRef) :
    let after := d.add (.reference qualifier name)
    after.2.arena.referenceAt? after.1 = some ⟨qualifier, name⟩ := by
  intro after
  rw [Arena.referenceAt?_eq]
  exact congrArg (Option.bind · Content.reference?) (contentAt?_add d (.reference qualifier name))

/-- What a new reference spells, given that its name is an identifier. -/
theorem reference_spells (qualifier : NodeRef) {name : NodeRef} {text : String}
    (named : d.arena.identifierAt? name = some text) :
    let after := d.add (.reference qualifier name)
    (qualifier = none → after.2.arena.Spells after.1 text) ∧
    ∀ front, qualifier.isSome → d.arena.Spells qualifier front →
      after.2.arena.Spells after.1 (front ++ "." ++ text) := by
  intro after
  have here := referenceAt?_reference d qualifier name
  have carried := Arena.CarriedBy.add d.arena (.reference qualifier name)
  constructor
  · rintro rfl
    exact .bare here (carried.identifierAt? named)
  · intro front some before
    obtain ⟨i, rfl⟩ := Option.isSome_iff_exists.mp some
    exact .qualified here (carried.identifierAt? named) (carried.spells before)

theorem pathName_drawn (wf : d.WellFormed) (legible : d.Legible) (name : String) :
    Drawn d (d.pathName none name).1 (d.pathName none name).2 name.toList ∧
      (d.pathName none name).2.arena.Spells (d.pathName none name).1 name := by
  have k := identifier_drawn wf legible name
  have spelled := (reference_spells none
    (identifierAt?_identifier d name)).1 rfl
  refine ⟨(pathName_built wf name).draw k.wellFormed k.legible k.written ?_ (.name k.shows) ?_,
    spelled⟩
  · obtain ⟨n, here, -⟩ := k.live List.mem_cons_self
    exact (Arena.stop_spanOf_reference none here).trans (k.ends n here)
  · intro _ _
    rw [String.ofList_toList]
    exact spelled

theorem qualified_drawn {qualifier : NodeRef} (b : Drawn before qualifier d shown)
    (spelled : d.arena.Spells qualifier (String.ofList shown)) (name : String) :
    let after := (d.write ".").pathName qualifier name
    Drawn before after.1 after.2 (shown ++ '.' :: name.toList) ∧
      after.2.arena.Spells after.1 (String.ofList (shown ++ '.' :: name.toList)) := by
  intro after
  obtain ⟨q, hereQ, -⟩ := b.live List.mem_cons_self
  obtain ⟨i, rfl, -⟩ := Arena.index_lt_size hereQ
  have dotted := b.wellFormed.write "."
  have k := identifier_drawn dotted (b.legible.write ".") name
  obtain ⟨n, here, -⟩ := k.live List.mem_cons_self
  have qualifier : ((d.write ".").identifier name).2.arena.Spells (some i) (String.ofList shown) :=
    (Keeps.add (dotted.write name) _).spells _ _ spelled
  have joined : String.ofList (shown ++ '.' :: name.toList) =
      String.ofList shown ++ "." ++ name := by
    simp [← String.toList_inj]
  have spelled := (reference_spells (some i)
    (identifierAt?_identifier (d.write ".") name)).2 _ rfl qualifier
  rw [← joined] at spelled
  have whole : ((d.write ".").identifier name).2.source.toList =
      before.source.toList ++ (shown ++ '.' :: name.toList) := by
    rw [k.written, text_write, b.written]
    simp
  refine ⟨(qualified_built b.toBuilt name).draw k.wellFormed k.legible whole ?_ ?_ ?_, spelled⟩
  · exact (Arena.stop_spanOf_reference (some i) here).trans (k.ends n here)
  · exact .qualified ((b.shows.grown (.written b.wellFormed ".")).grown k.toGrown) k.shows
  · intro _ _
    exact spelled

theorem pathNames_drawn {qualifier : NodeRef} (b : Drawn before qualifier d shown)
    (spelled : d.arena.Spells qualifier (String.ofList shown)) (names : List String) :
    ∃ text, Drawn before (d.pathNames qualifier names).1 (d.pathNames qualifier names).2 text := by
  induction names generalizing d qualifier shown with
  | nil => exact ⟨shown, b⟩
  | cons name rest ih =>
      obtain ⟨k, spelled⟩ := qualified_drawn b spelled name
      exact ih k spelled

theorem path_drawn (wf : d.WellFormed) (legible : d.Legible) (dotted : String) :
    ∃ text, Drawn d (d.path dotted).1 (d.path dotted).2 text := by
  obtain ⟨k, spelled⟩ := pathName_drawn wf legible
    (String.ofList (Text.splitFirst '.' dotted.toList).1)
  refine pathNames_drawn k ?_ _
  rw [String.ofList_toList]
  exact spelled

end Draft

end ParameterHints
