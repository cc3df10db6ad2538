import ParameterHints.Proofs.Json.Grammar

/-! # What is written is in the grammar

A written value has no blanks. Lists and objects are written part by part, so that the grammar has
them if it has what is written for their elements.
-/

namespace ParameterHints.Json

variable {α : Type} {P : α → List Char → Prop} {write : α → Json}

theorem isBoolean_writeValue (b : Bool) : IsBoolean b (writeValue (.boolean b)) := by
  rw [writeValue, writeBoolean]
  cases b
  · exact .no
  · exact .yes

theorem item_of {value : α} {s : List Char} (h : P value s) : Item P value s := by
  have padded : Item P value ([] ++ (s ++ [])) := .padded .nil h .nil
  rwa [List.nil_append, List.append_nil] at padded

theorem writeItems_eq (items : List Json) :
    writeItems items = separated false (items.map writeValue) ++ [']'] := by
  induction items with
  | nil => rfl
  | cons item items ih =>
      rw [writeItems, ih]
      simp [separated, separator]

theorem writeMembers_eq (members : List (String × Json)) :
    writeMembers members = separated false (members.map writeMember) ++ ['\x7d'] := by
  induction members with
  | nil => rfl
  | cons member members ih =>
      rw [writeMembers, ih]
      simp [separated, separator]

theorem encloses_writeValue_list (items : List Json) :
    Encloses .list (items.map writeValue) (writeValue (.list items)) := by
  refine ⟨[], .nil, ?_⟩
  cases items with
  | nil => rfl
  | cons item items =>
      rw [writeValue, writeItems_eq]
      simp [separated, separator, Bracket.opening, Bracket.closing]

theorem encloses_writeValue_object (members : List (String × Json)) :
    Encloses .object (members.map writeMember) (writeValue (.object members)) := by
  refine ⟨[], .nil, ?_⟩
  cases members with
  | nil => rfl
  | cons member members =>
      rw [writeValue, writeMembers_eq]
      simp [separated, separator, Bracket.opening, Bracket.closing]

theorem isList_writeValue {values : List α} (each : ∀ value, P value (writeValue (write value))) :
    IsList P values (writeValue (.list (values.map write))) := by
  refine ⟨_, ?_, encloses_writeValue_list _⟩
  rw [List.map_map, List.forall₂_map_right_iff, List.forall₂_same]
  exact fun value _ => item_of (each value)

theorem member_writeMember {value : α} {written : Json} (key : String)
    (h : P value (writeValue written)) :
    Member IsText P (key, value) (writeMember (key, written)) := by
  have keyed := Member.keyed .nil (isText_writeText key) .nil (item_of h)
  rwa [List.nil_append, List.nil_append] at keyed

theorem isObject_writeValue {members : List (String × α)}
    (each : ∀ value, P value (writeValue (write value))) :
    IsObject IsText P members
      (writeValue (.object (members.map fun (key, value) => (key, write value)))) := by
  refine ⟨_, ?_, encloses_writeValue_object _⟩
  rw [List.map_map, List.forall₂_map_right_iff, List.forall₂_same]
  exact fun member _ => member_writeMember member.1 (each member.2)

/-- Any members that are written are those of an object. -/
theorem isObject_written (members : List (String × Json)) :
    IsObject IsText Eq (members.map fun member => (member.1, writeValue member.2))
      (writeValue (.object members)) := by
  refine ⟨_, ?_, encloses_writeValue_object _⟩
  rw [List.forall₂_map_left_iff, List.forall₂_map_right_iff, List.forall₂_same]
  exact fun member _ => member_writeMember member.1 rfl

end ParameterHints.Json
