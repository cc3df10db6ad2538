import ParameterHints.Config.Format
import ParameterHints.Proofs.Json.Reading
import ParameterHints.Proofs.Json.Writing

/-! # The texts of a configuration

A configuration is read from every text that spells it. Its fields may stand in any order and among
members with other names, whatever the values of these; a field may be left out if it has its
default. The text that is written is one of these texts, and it stays one when the fields or the
languages are put into another order.
-/

namespace ParameterHints.Config

open Json

def fieldNames : List String := ["parameterHints", "extraDenylist", "dependencyDenylists"]

/-- What may stand in the text of a configuration: one of its fields, with the languages in any
    order, or some value under another name. -/
inductive IsMember (c : Config) : String × List Char → Prop where
  | parameterHints {s} : IsBoolean c.parameterHints s → IsMember c ("parameterHints", s)
  | extraDenylist {s} : IsList IsText c.extraDenylist s → IsMember c ("extraDenylist", s)
  | dependencyDenylists {entries s} : entries.Perm c.dependencyDenylists →
      IsObject IsText (IsList IsText) entries s → IsMember c ("dependencyDenylists", s)
  | unknown {name s} : name ∉ fieldNames → IsValue s → IsMember c (name, s)

/-- The names and the texts of the members of an object that spells a configuration. -/
structure Spelled (c : Config) (members : List (String × List Char)) : Prop where
  each : ∀ member ∈ members, c.IsMember member
  /-- No field is there twice. -/
  once : ((members.map Prod.fst).filter (· ∈ fieldNames)).Nodup
  parameterHints : "parameterHints" ∈ members.map Prod.fst ∨
    c.parameterHints = default.parameterHints
  extraDenylist : "extraDenylist" ∈ members.map Prod.fst ∨
    c.extraDenylist = default.extraDenylist
  dependencyDenylists : "dependencyDenylists" ∈ members.map Prod.fst ∨
    c.dependencyDenylists = default.dependencyDenylists

/-- The ways to write a configuration. -/
def Spells (c : Config) (text : List Char) : Prop :=
  ∃ members, c.Spelled members ∧ Item (IsObject IsText Eq) members text

variable {c : Config} {name : String} {s text : List Char} {members : List (String × List Char)}

/-! ## Reading -/

/-- The configuration with the defaults in all fields but those of some names. -/
def keeping (c : Config) (names : List String) : Config where
  parameterHints :=
    if "parameterHints" ∈ names then c.parameterHints else default.parameterHints
  extraDenylist := if "extraDenylist" ∈ names then c.extraDenylist else default.extraDenylist
  dependencyDenylists :=
    if "dependencyDenylists" ∈ names then c.dependencyDenylists else default.dependencyDenylists

theorem Spelled.keeping_eq (h : c.Spelled members) : c.keeping (members.map Prod.fst) = c := by
  have kept {α : Type} {name : String} (value initial : α)
      (present : name ∈ members.map Prod.fst ∨ value = initial) :
      (if name ∈ members.map Prod.fst then value else initial) = value := by
    split_ifs with there
    · rfl
    · exact (present.resolve_left there).symm
  rw [keeping, kept _ _ h.parameterHints, kept _ _ h.extraDenylist, kept _ _ h.dependencyDenylists]

theorem keeping_unknown (unknown : name ∉ fieldNames) (names : List String) :
    c.keeping (names ++ [name]) = c.keeping names := by
  simp only [fieldNames, List.mem_cons, List.not_mem_nil, or_false, not_or] at unknown
  obtain ⟨first, second, third⟩ := unknown
  simp [keeping, Ne.symm first, Ne.symm second, Ne.symm third]

/-- A member is that of a field, which makes it one of those that are kept, or of none. -/
theorem IsMember.known_or_unknown (h : c.IsMember (name, s))
    (ascending : Ascending c.dependencyDenylists) :
    (∃ field ∈ fields, field.name = name ∧ ∃ change, Reads field.read change s ∧
      ∀ names, change (c.keeping names) = c.keeping (names ++ [name])) ∨
    name ∉ fieldNames ∧ IsValue s := by
  cases h with
  | parameterHints written =>
      refine .inl ⟨_, List.mem_cons_self, rfl, _, reads_free (reads_boolean written), ?_⟩
      intro names
      simp [keeping]
  | extraDenylist written =>
      have reads := reads_list (written.imp fun _ _ => reads_text)
      refine .inl ⟨_, List.mem_cons_of_mem _ List.mem_cons_self, rfl, _,
        reads_free reads, ?_⟩
      intro names
      simp [keeping]
  | dependencyDenylists same written =>
      have lists := written.imp fun _ _ patterns =>
        reads_list (patterns.imp fun _ _ => reads_text)
      have reads := reads_dictionary lists same ascending
      refine .inl ⟨_, List.mem_cons_of_mem _ (List.mem_cons_of_mem _ List.mem_cons_self), rfl, _,
        reads_free reads, ?_⟩
      intro names
      simp [keeping]
  | unknown unknown value => exact .inr ⟨unknown, value⟩

theorem field_facts {field : RecordField Config} (among : field ∈ fields) :
    field.name ∈ fieldNames ∧
    (fields.map RecordField.reader).find? (·.name == field.name) = some field.reader ∧
    field.presence.mayMiss .object := by
  simp only [fields, List.mem_cons, List.not_mem_nil, or_false] at among
  rcases among with rfl | rfl | rfl
  all_goals exact ⟨by decide, rfl, rfl⟩

/-- The changes that the members tell set the fields that are there. -/
theorem exists_changes (ascending : Ascending c.dependencyDenylists)
    (each : ∀ member ∈ members, c.IsMember member)
    (once : ((members.map Prod.fst).filter (· ∈ fieldNames)).Nodup) :
    ∃ changes, Tells (fields.map RecordField.reader) members changes ∧
      changes.map Prod.fst = (members.map Prod.fst).filter (· ∈ fieldNames) ∧
      ∀ names, changes.foldl (fun value (_, change) => change value) (c.keeping names) =
        c.keeping (names ++ members.map Prod.fst) := by
  induction members with
  | nil => exact ⟨[], .nothing, rfl, fun names => by simp⟩
  | cons member members ih =>
      obtain ⟨name, s⟩ := member
      obtain ⟨here, later⟩ := List.forall_mem_cons.mp each
      rcases here.known_or_unknown ascending with
        ⟨field, among, rfl, change, reads, keeps⟩ | ⟨unknown, value⟩
      · obtain ⟨known, found, -⟩ := field_facts among
        rw [List.map_cons, List.filter_cons_of_pos (by simpa using known)] at once ⊢
        obtain ⟨new, once⟩ := List.nodup_cons.mp once
        obtain ⟨changes, tells, names, kept⟩ := ih later once
        have fresh : ∀ other ∈ changes, other.1 ≠ field.name := fun other there same =>
          new (names ▸ same ▸ List.mem_map_of_mem there)
        refine ⟨(field.name, change) :: changes, ?_, by rw [List.map_cons, names], fun front => ?_⟩
        · exact .known found reads fresh tells
        · simp only [List.foldl_cons, keeps, kept, List.append_assoc, List.singleton_append]
      · rw [List.map_cons, List.filter_cons_of_neg (by simpa using unknown)] at once ⊢
        obtain ⟨changes, tells, names, kept⟩ := ih later once
        have other : ∀ field ∈ fields.map RecordField.reader, field.name ≠ name :=
          List.forall_mem_map.mpr fun field among same =>
            unknown (same ▸ (field_facts among).1)
        refine ⟨changes, .unknown other value tells, names, fun front => ?_⟩
        rw [← keeping_unknown unknown, kept, List.append_assoc, List.singleton_append]

theorem keeping_nil : c.keeping [] = default := rfl

/-- A configuration is read from every text that spells it. -/
theorem Spells.ofText_eq {text : String} (h : c.Spells text.toList)
    (ascending : Ascending c.dependencyDenylists) : ofText text = .ok c := by
  obtain ⟨members, spelled, written⟩ := h
  obtain ⟨changes, tells, -, kept⟩ := exists_changes ascending spelled.each spelled.once
  have whole : changes.foldl (fun value (_, change) => change value) default = c := by
    rw [← keeping_nil (c := c), kept, List.nil_append, spelled.keeping_eq]
  rw [ofText, Format.readText]
  generalize text.toList = s at written
  obtain ⟨before, object, after⟩ := written
  have reads : Reads format.read c _ :=
    whole ▸ reads_record (fun _ among => (field_facts among).2.2) tells object
  exact readAll_eq reads before after

/-- What a field reads leaves the languages in ascending order. -/
theorem ascending_of_found {change : Config → Config}
    (h : Found (fields.map RecordField.reader) change)
    (ascending : Ascending c.dependencyDenylists) :
    Ascending (change c).dependencyDenylists := by
  obtain ⟨_, reader, before, after, read⟩ := h
  obtain ⟨field, among, rfl⟩ := List.mem_map.mp reader
  simp only [fields, List.mem_cons, List.not_mem_nil, or_false] at among
  rcases among with rfl | rfl | rfl
  all_goals
    obtain ⟨⟨value, rest⟩, reads, set⟩ := bind_eq_ok.mp read
    cases set
  · exact ascending
  · exact ascending
  · exact ascending_of_dictionary reads

theorem ascending_of_ofText {text : String} (h : ofText text = .ok c) :
    Ascending c.dependencyDenylists := by
  obtain ⟨⟨value, rest⟩, read, h⟩ := bind_eq_ok.mp h
  obtain ⟨⟨⟨form, changes⟩, rest⟩, told, read⟩ := bind_eq_ok.mp read
  obtain ⟨built, assembled, read⟩ := bind_eq_ok.mp read
  have found := found_record told
  cases read
  dsimp only at h
  split_ifs at h
  cases h
  rw [← foldl_of_assemble assembled]
  exact List.foldlRecOn (motive := fun d : Config => Ascending d.dependencyDenylists) changes _
    .nil fun value ascending change member => ascending_of_found (found change member) ascending

/-! ## Writing -/

/-- The members that are written for a configuration. -/
def written (c : Config) : List (String × Json) :=
  [("parameterHints", .boolean c.parameterHints),
    ("extraDenylist", .list (c.extraDenylist.map .text)),
    ("dependencyDenylists", .object (c.dependencyDenylists.map fun (language, patterns) =>
      (language, .list (patterns.map .text))))]

theorem write_eq (c : Config) : format.write c = .object c.written := rfl

theorem isList_patterns (patterns : List String) :
    IsList IsText patterns (writeValue (.list (patterns.map .text))) := by
  refine isList_writeValue fun pattern => ?_
  rw [writeValue]
  exact isText_writeText pattern

theorem isMember_written {entries : List (String × List String)} {name : String} {value : Json}
    (order : entries.Perm c.dependencyDenylists)
    (among : (name, value) ∈ ({ c with dependencyDenylists := entries }).written) :
    c.IsMember (name, writeValue value) := by
  simp only [written, List.mem_cons, Prod.mk.injEq, List.not_mem_nil, or_false] at among
  rcases among with ⟨rfl, rfl⟩ | ⟨rfl, rfl⟩ | ⟨rfl, rfl⟩
  · exact .parameterHints (isBoolean_writeValue _)
  · exact .extraDenylist (isList_patterns _)
  · exact .dependencyDenylists order (isObject_writeValue isList_patterns)

/-- What is written spells a configuration, also with the fields and the languages in another
    order. -/
theorem spells_writeValue {entries : List (String × List String)} {members : List (String × Json)}
    (order : entries.Perm c.dependencyDenylists)
    (rearranged : members.Perm ({ c with dependencyDenylists := entries }).written) :
    c.Spells (writeValue (.object members)) := by
  have names : (members.map Prod.fst).Perm fieldNames := rearranged.map Prod.fst
  have kept : (members.map fun member => (member.1, writeValue member.2)).map Prod.fst =
      members.map Prod.fst := by
    rw [List.map_map]
    rfl
  have there : ∀ name ∈ fieldNames, name ∈
      (members.map fun member => (member.1, writeValue member.2)).map Prod.fst := fun name =>
    kept ▸ names.mem_iff.mpr
  refine ⟨_, ⟨?_, ?_, .inl (there _ (by decide)), .inl (there _ (by decide)),
    .inl (there _ (by decide))⟩, item_of (isObject_written members)⟩
  · exact List.forall_mem_map.mpr fun member among =>
      isMember_written order (rearranged.mem_iff.mp among)
  · have distinct : fieldNames.Nodup := by decide
    rw [kept]
    exact (names.nodup_iff.mpr distinct).filter _

/-- A configuration is read from every text that spells it. What is written is such a text, and it
    stays one with the fields and the languages in any other order. Whatever text is read, the
    languages are then in ascending order. -/
theorem spelling_reads_back (c : Config) (ascending : Ascending c.dependencyDenylists) :
    (∀ text : String, c.Spells text.toList → ofText text = .ok c) ∧
    (∀ entries told members, entries.Perm c.dependencyDenylists →
      format.write { c with dependencyDenylists := entries } = .object told → members.Perm told →
      c.Spells (writeValue (.object members)) ∧
        ofText (String.ofList (writeValue (.object members))) = .ok c) ∧
    ofText (toText c) = .ok c ∧
    ∀ (text : String) (d : Config), ofText text = .ok d → Ascending d.dependencyDenylists := by
  have reads (text : String) (spelled : c.Spells text.toList) : ofText text = .ok c :=
    spelled.ofText_eq ascending
  have rearranges (entries : List (String × List String)) (told members : List (String × Json))
      (order : entries.Perm c.dependencyDenylists)
      (wrote : format.write { c with dependencyDenylists := entries } = .object told)
      (rearranged : members.Perm told) : c.Spells (writeValue (.object members)) ∧
        ofText (String.ofList (writeValue (.object members))) = .ok c := by
    obtain rfl : Config.written _ = told := Json.object.inj ((write_eq _).symm.trans wrote)
    have spelled := spells_writeValue order rearranged
    exact ⟨spelled, reads _ (by rwa [String.toList_ofList])⟩
  have same : ofText (toText c) = .ok c := (rearranges _ _ _ (.refl _) (write_eq c) (.refl _)).2
  exact ⟨reads, rearranges, same, fun _ _ => ascending_of_ofText⟩

def crossed : Config := ⟨true, ["😀"], [("java", ["a"]), ("kotlin", [])]⟩

def crossedMembers : List (String × List Char) :=
  [("x", "[-0.5e+1, \x7b\x7d]".toList),
    ("dependencyDenylists",
      writeValue (.object [("kotlin", .list []), ("java", .list [.text "a"])])),
    ("extraDenylist", "[ \"\\ud83d\\uDE00\"]".toList), ("x", "null".toList)]

/-- A field is left out that has its default, the others and the languages are in another order, a
    character is written as a pair of surrogates, and an unknown member is there twice. -/
theorem crossed_reads_back :
    let text := "\x7b\"x\":[-0.5e+1, \x7b\x7d],\n\"dependencyDenylists\": \x7b\"kotlin\":[]," ++
      "\"java\":[\"a\"]\x7d,\n\"extraDenylist\" : [ \"\\ud83d\\uDE00\"],\"x\":null\x7d"
    Ascending crossed.dependencyDenylists ∧ crossed.Spells text.toList ∧
      ofText text = .ok crossed := by
  intro text
  have ascending : Ascending crossed.dependencyDenylists :=
    List.pairwise_cons.mpr ⟨by decide +kernel, List.pairwise_singleton _ _⟩
  have space : Blank [' '] := List.forall_mem_singleton.mpr rfl
  have newline : Blank ['\n'] := List.forall_mem_singleton.mpr rfl
  have digits {c : Char} (digit : isDigit c) : IsDigits [c] :=
    ⟨List.cons_ne_nil _ _, List.forall_mem_singleton.mpr digit⟩
  have number : IsNumber (['-'] ++ (['0'] ++ (['.', '5'] ++ 'e' :: (['+'] ++ ['1'])))) :=
    .parts (.inr rfl) ⟨digits rfl, fun _ => rfl⟩ (.point (digits rfl))
      (.power (.inl rfl) (.inr (.inl rfl)) (digits rfl))
  have empty : IsObject Eq Eq ([] : List (List Char × List Char)) ['\x7b', '\x7d'] :=
    ⟨[], .nil, [], .nil, rfl⟩
  have values : ∀ value ∈ [_, ['\x7b', '\x7d']], IsValue value :=
    List.forall_mem_cons.mpr ⟨.number number, List.forall_mem_singleton.mpr <|
      .object (List.forall_mem_nil _) (List.forall_mem_nil _) empty⟩
  have unknown : IsValue "[-0.5e+1, \x7b\x7d]".toList :=
    .list values ⟨_, .cons (item_of rfl) <| .cons (.padded space rfl .nil) .nil,
      [], .nil, by decide +kernel⟩
  have high : EscapesUnit 0xD83D ['\\', 'u', 'd', '8', '3', 'd'] :=
    .digits (i := 13) (j := 8) (k := 3) (l := 13) ⟨by decide, .inl rfl⟩ ⟨by decide, .inl rfl⟩
      ⟨by decide, .inl rfl⟩ ⟨by decide, .inl rfl⟩
  have low : EscapesUnit 0xDE00 ['\\', 'u', 'D', 'E', '0', '0'] :=
    .digits (i := 13) (j := 14) (k := 0) (l := 0) ⟨by decide, .inr rfl⟩ ⟨by decide, .inr rfl⟩
      ⟨by decide, .inl rfl⟩ ⟨by decide, .inl rfl⟩
  have face : IsText "😀" "\"\\ud83d\\uDE00\"".toList :=
    ⟨_, .cons (.pair (by decide) high low) .nil, by decide +kernel⟩
  have patterns : IsList IsText crossed.extraDenylist "[ \"\\ud83d\\uDE00\"]".toList :=
    ⟨_, .cons (.padded space face .nil) .nil, [], .nil, by decide +kernel⟩
  have languages : crossed.IsMember ("dependencyDenylists",
      writeValue (.object [("kotlin", .list []), ("java", .list [.text "a"])])) :=
    isMember_written (.swap ("java", ["a"]) ("kotlin", []) []) (by simp [written])
  have each : ∀ member ∈ crossedMembers, crossed.IsMember member := by
    simp only [crossedMembers, List.forall_mem_cons]
    exact ⟨.unknown (by decide) unknown, languages, .extraDenylist patterns,
      .unknown (by decide) .null, nofun⟩
  have object : IsObject IsText Eq crossedMembers text.toList :=
    ⟨_, .cons (.keyed .nil (isText_writeText _) .nil (item_of rfl)) <|
      .cons (.keyed newline (isText_writeText _) .nil (.padded space rfl .nil)) <|
      .cons (.keyed newline (isText_writeText _) space (.padded space rfl .nil)) <|
      .cons (.keyed .nil (isText_writeText _) .nil (item_of rfl)) .nil,
      [], .nil, by decide +kernel⟩
  have spelled : crossed.Spells text.toList :=
    ⟨_, ⟨each, by decide, .inr rfl, .inl (by decide), .inl (by decide)⟩, item_of object⟩
  exact ⟨ascending, spelled, (spelling_reads_back crossed ascending).1 text spelled⟩

end ParameterHints.Config
