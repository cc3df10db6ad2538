import ParameterHints.Proofs.Syntax.Legible
import ParameterHints.Proofs.Text.LastDot

/-! # Dotted paths as they are written

A dotted path is split at its dots from the left and written as a chain of references, whatever was
there before. Read back, the chain is the path, and its last reference is cut at the last dot: the
name is behind it, and the qualifier reads as all that is in front of it.
-/

namespace ParameterHints

/-- The reference at a place reads as a path, of which its name is the last part and its qualifier
    what is in front of that, if there is anything. -/
structure Arena.Refers (a : Arena) (r : NodeRef) (path : String) (front? : Option String)
    (last : String) : Prop where
  path : a.path? r = some path
  name : a.referenceName? r = some last
  qualifier : ∃ reference, a.referenceAt? r = some reference ∧
    match front? with
    | none => reference.qualifier = none
    | some front =>
        (a.node? reference.qualifier).isSome ∧ a.path? reference.qualifier = some front

namespace Arena

variable {a : Arena} {r name : NodeRef} {front last : String}

theorem refers_bare (here : a.referenceAt? r = some ⟨none, name⟩)
    (named : a.identifierAt? name = some last) : a.Refers r last none last where
  path := path?_iff_spells.mpr (.bare here named)
  name := by simp [referenceName?, here, named]
  qualifier := ⟨_, here, rfl⟩

theorem refers_qualified {qualifier : Nat} (here : a.referenceAt? r = some ⟨some qualifier, name⟩)
    (named : a.identifierAt? name = some last) (before : a.Spells (some qualifier) front) :
    a.Refers r (front ++ "." ++ last) (some front) last where
  path := path?_iff_spells.mpr (.qualified here named before)
  name := by simp [referenceName?, here, named]
  qualifier := ⟨_, here, live_of_spells before, path?_iff_spells.mpr before⟩

/-- What a reference says lasts. -/
theorem Refers.carried {b : Arena} {path : String} {front? : Option String}
    (h : a.Refers r path front? last) (carried : a.CarriedBy b) : b.Refers r path front? last where
  path := carried.path? h.path
  name := by
    obtain ⟨reference, here, named⟩ := Option.bind_eq_some_iff.mp h.name
    exact Option.bind_eq_some_iff.mpr
      ⟨reference, carried.referenceAt? here, carried.identifierAt? named⟩
  qualifier := by
    obtain ⟨reference, here, before⟩ := h.qualifier
    refine ⟨reference, carried.referenceAt? here, ?_⟩
    cases front? with
    | none => exact before
    | some front =>
        have spelled := carried.path? before.2
        exact ⟨live_of_spells (path?_iff_spells.mp spelled), spelled⟩

end Arena

namespace Draft

/-- `after` is `before` with a text behind it, and the node at a place covers just that text. -/
structure Covers (before : Draft) (r : NodeRef) (after : Draft) (text : String) : Prop where
  source : after.source = before.source ++ text
  node : ∃ n, after.arena.node? r = some n ∧ n.start = before.offset ∧ n.stop = after.offset

/-- A reference covers a dotted path that was just written, and is cut at its last dot. -/
structure WritesPath (before : Draft) (r : NodeRef) (after : Draft) (path : String) : Prop
    extends Covers before r after path where
  refers : ∃ front? last, Text.CutAtLastDot path front? last ∧
    after.arena.Refers r path front? last

variable {before d : Draft} {qualifier : NodeRef} {path : String}

theorem identifier_covers (d : Draft) (name : String) :
    Covers d (d.identifier name).1 (d.identifier name).2 name :=
  ⟨rfl, _, Arena.node?_nextRef_add _ _, rfl, rfl⟩

/-- A reference covers what its span does. -/
theorem reference_covers {name : NodeRef} {text : String}
    (source : d.source = before.source ++ text)
    (span : d.arena.spanOf (.reference qualifier name) = ⟨before.offset, d.offset⟩) :
    let after := d.add (.reference qualifier name)
    before.Covers after.1 after.2 text :=
  ⟨source, _, Arena.node?_nextRef_add _ _, congrArg Span.start span, congrArg Span.stop span⟩

/-- The first name is a path by itself. -/
theorem pathName_writes (d : Draft) (name : String) (plain : '.' ∉ name.toList) :
    WritesPath d (d.pathName none name).1 (d.pathName none name).2 name := by
  have named := identifierAt?_identifier d name
  obtain ⟨source, m, there, start, stop⟩ := identifier_covers d name
  have span : (d.identifier name).2.arena.spanOf (.reference none (d.identifier name).1) =
      ⟨d.offset, (d.identifier name).2.offset⟩ := by
    rw [Arena.spanOf_bare there, start, stop]
  refine ⟨reference_covers source span, none, name, .whole plain, ?_⟩
  exact Arena.refers_bare (referenceAt?_reference _ _ _)
    ((Arena.CarriedBy.add _ _).identifierAt? named)

/-- A further name goes behind a dot, and all that was written so far is its qualifier. -/
theorem WritesPath.snoc (h : before.WritesPath qualifier d path) (name : String)
    (plain : '.' ∉ name.toList) :
    let after := (d.write ".").pathName qualifier name
    before.WritesPath after.1 after.2 (path ++ "." ++ name) := by
  intro after
  have named := identifierAt?_identifier (d.write ".") name
  obtain ⟨source, m, there, -, stop⟩ := identifier_covers (d.write ".") name
  obtain ⟨n, here, start, -⟩ := h.node
  obtain ⟨i, rfl, -⟩ := Arena.index_lt_size here
  obtain ⟨front?, last, -, refers⟩ := h.refers
  have still : ((d.write ".").identifier name).2.arena.node? (some i) = some n :=
    Arena.node?_add_of_node _ here
  have longer : ((d.write ".").identifier name).2.source =
      before.source ++ (path ++ "." ++ name) := by
    rw [source, write, h.source, String.append_assoc, String.append_assoc, String.append_assoc]
  have span : ((d.write ".").identifier name).2.arena.spanOf
      (.reference (some i) ((d.write ".").identifier name).1) =
      ⟨before.offset, ((d.write ".").identifier name).2.offset⟩ := by
    rw [Arena.spanOf_qualified still there, start, stop]
  have spelled : after.2.arena.Spells (some i) path :=
    ((Leads.refl.write ".").trans (pathName_leads _ _ name)).carried.spells
      (Arena.path?_iff_spells.mp refers.path)
  refine ⟨reference_covers longer span, some path, name, .behind plain, ?_⟩
  exact Arena.refers_qualified (referenceAt?_reference _ _ _)
    ((Arena.CarriedBy.add _ _).identifierAt? named) spelled

theorem WritesPath.names (h : before.WritesPath qualifier d path) (names : List String)
    (plain : ∀ name ∈ names, '.' ∉ name.toList) :
    before.WritesPath (d.pathNames qualifier names).1 (d.pathNames qualifier names).2
      (names.foldl (fun path name => path ++ "." ++ name) path) := by
  induction names generalizing d qualifier path with
  | nil => exact h
  | cons name rest ih =>
      have first := h.snoc name (plain name List.mem_cons_self)
      exact ih first fun name member => plain name (List.mem_cons_of_mem _ member)

theorem toList_foldl_dot (names : List (List Char)) (path : String) :
    ((names.map String.ofList).foldl (fun path name => path ++ "." ++ name) path).toList =
      path.toList ++ names.flatMap ('.' :: ·) := by
  induction names generalizing path with
  | nil => simp
  | cons name rest ih =>
      rw [List.map_cons, List.foldl_cons, ih]
      simp

/-- A dotted path is written as it is. -/
theorem path_writes (d : Draft) (dotted : String) :
    WritesPath d (d.path dotted).1 (d.path dotted).2 dotted := by
  have plain := Text.not_mem_segment '.' dotted.toList
  have join := Text.splitFirst_join '.' dotted.toList
  rw [Text.segments] at plain
  have first := pathName_writes d (String.ofList (Text.splitFirst '.' dotted.toList).1)
    (by simpa using plain _ List.mem_cons_self)
  have others : ∀ name ∈ (Text.splitFirst '.' dotted.toList).2.map String.ofList,
      '.' ∉ name.toList := by
    intro name member
    obtain ⟨segment, listed, rfl⟩ := List.mem_map.mp member
    rw [String.toList_ofList]
    exact plain segment (List.mem_cons_of_mem _ listed)
  have whole := first.names _ others
  have made : ((Text.splitFirst '.' dotted.toList).2.map String.ofList).foldl
      (fun path name => path ++ "." ++ name)
      (String.ofList (Text.splitFirst '.' dotted.toList).1) = dotted := by
    rw [← String.toList_inj, toList_foldl_dot, String.toList_ofList, join]
  rwa [made] at whole

end Draft

end ParameterHints
