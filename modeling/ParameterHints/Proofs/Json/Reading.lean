import Mathlib.Data.String.Basic
import ParameterHints.Json.Format
import ParameterHints.Proofs.Json.Skipping

/-! # Reading what the grammar allows

A reader finds a value in every text that the grammar gives to it, whatever stands behind the text:
each element of a list, the entries of an object in the order of their keys, and the fields of a
record in any order, with other members in between.
-/

namespace ParameterHints.Json

/-- A computation that can fail goes well if each of its steps does. -/
theorem bind_eq_ok {ε α β : Type} {x : Except ε α} {f : α → Except ε β} {y : β} :
    x >>= f = .ok y ↔ ∃ a, x = .ok a ∧ f a = .ok y := by
  cases x <;> simp [Bind.bind, Except.bind]

/-- Whether a reader finds a value in a text, with any blanks in front of it and anything behind. -/
structure Reads {α : Type} (read : Reader α) (value : α) (s : List Char) : Prop where
  begins : Begins s
  eq : ∀ {blank}, Blank blank → ∀ rest, read (blank ++ (s ++ rest)) = .ok (value, rest)

variable {α β : Type} {read : Reader α} {s blank : List Char} {parts : List (List Char)}

/-! ## Scalars -/

theorem reads_boolean {b : Bool} (h : IsBoolean b s) : Reads Reader.boolean b s := by
  refine ⟨h.begins, fun blanks rest => ?_⟩
  rw [Reader.boolean, h.begins.skipSpaces_eq blanks]
  cases h
  all_goals rfl

theorem IsText.begins {value : String} (h : IsText value s) : Begins s := by
  obtain ⟨parts, -, rfl⟩ := h
  exact ⟨'"', _, rfl, by decide, by decide⟩

theorem reads_text {value : String} (h : IsText value s) : Reads Reader.text value s := by
  refine ⟨h.begins, fun blanks rest => ?_⟩
  rw [Reader.text, h.begins.skipSpaces_eq blanks]
  obtain ⟨parts, quoted, rfl⟩ := h
  simp only [List.cons_append, List.append_assoc, List.nil_append, quotedRest_flatten quoted]
  simp only [bind, Except.bind, pure, Except.pure, String.ofList_toList]

theorem Reads.mapped {value : α} (h : Reads read value s) (f : α → β) :
    Reads (Reader.mapped f read) (f value) s := by
  refine ⟨h.begins, fun blanks rest => ?_⟩
  rw [Reader.mapped, h.eq blanks]
  rfl

/-! ## Lists -/

theorem nextElement_end (blanks : Blank blank) (first : Bool) (rest : List Char) :
    Reader.nextElement first (blank ++ ']' :: rest) = .ok none := by
  have solid : isSpace ']' = false := by decide
  simp only [Reader.nextElement, skipSpaces_blank blanks, skipSpaces_cons solid, if_true]

theorem endOfList_blank (blanks : Blank blank) (rest : List Char) :
    Reader.endOfList (blank ++ ']' :: rest) = .ok rest := by
  have solid : isSpace ']' = false := by decide
  simp only [Reader.endOfList, skipSpaces_blank blanks, skipSpaces_cons solid]

/-- The next element begins behind the separator and the blanks around it. -/
theorem nextElement_part (blanks : Blank blank) {before : List Char} (inner : Blank before)
    (begins : Begins s) (first : Bool) (rest : List Char) :
    Reader.nextElement first (blank ++ (separator first ++ (before ++ (s ++ rest)))) =
      .ok (some (s ++ rest)) := by
  have comma : isSpace ',' = false := by decide
  have found := begins.skipSpaces_eq inner rest
  obtain ⟨c, more, same, -, inside⟩ := begins
  rw [same, List.cons_append] at found ⊢
  cases first with
  | true =>
      simp only [separator, List.nil_append, Reader.nextElement, skipSpaces_blank blanks, found,
        inside, if_true, if_false]
  | false =>
      simp only [separator, List.cons_append, List.nil_append, Reader.nextElement,
        skipSpaces_blank blanks, skipSpaces_cons comma, found]
      simp [inside]

/-- The elements behind the opening bracket, or behind some other elements. -/
theorem elementsWithin_separated {values : List α}
    (items : List.Forall₂ (Item (Reads read)) values parts) {steps : Nat}
    (room : parts.length < steps) (first : Bool) (blanks : Blank blank) (rest : List Char) :
    Reader.elementsWithin read steps first (blank ++ (separated first parts ++ ']' :: rest)) =
      .ok (values, rest) := by
  induction items generalizing steps first blank with
  | nil =>
      obtain ⟨steps, rfl⟩ := Nat.exists_eq_add_one.mpr room
      rw [separated, List.nil_append, Reader.elementsWithin, nextElement_end blanks]
      simp only [bind, Except.bind, endOfList_blank blanks, pure, Except.pure]
  | cons item _ ih =>
      obtain ⟨steps, rfl⟩ := Nat.exists_eq_add_one.mpr (Nat.zero_lt_of_lt room)
      obtain ⟨before, value, after⟩ := item
      have others := ih (Nat.lt_of_succ_lt_succ room) false after
      simp only [separated, List.append_assoc]
      rw [Reader.elementsWithin, nextElement_part blanks before value.begins]
      simp only [bind, Except.bind]
      have here := value.eq .nil
      simp only [List.nil_append] at here
      simp only [here, others, pure, Except.pure]

theorem reads_list {values : List α} (h : IsList (Reads read) values s) :
    Reads (Reader.list read) values s := by
  obtain ⟨items, parts, encloses⟩ := h
  refine ⟨encloses.begins, fun blanks rest => ?_⟩
  rw [Reader.list, encloses.begins.skipSpaces_eq blanks]
  obtain ⟨inner, between, rfl⟩ := encloses
  simp only [Bracket.opening, Bracket.closing, List.cons_append, List.append_assoc, List.nil_append]
  exact elementsWithin_separated parts (length_lt_separated _ _ _ _) true between rest

/-! ## Objects -/

theorem nextKey_end (blanks : Blank blank) (first : Bool) (rest : List Char) :
    Reader.nextKey first (blank ++ '\x7d' :: rest) = .ok none := by
  have solid : isSpace '\x7d' = false := by decide
  simp only [Reader.nextKey, skipSpaces_blank blanks, skipSpaces_cons solid, if_true]

theorem endOfObject_blank (blanks : Blank blank) (rest : List Char) :
    Reader.endOfObject (blank ++ '\x7d' :: rest) = rest := by
  have solid : isSpace '\x7d' = false := by decide
  simp only [Reader.endOfObject, skipSpaces_blank blanks, skipSpaces_cons solid, List.tail_cons]

theorem nextKey_part (blanks : Blank blank) {before : List Char} (inner : Blank before)
    (first : Bool) (rest : List Char) :
    Reader.nextKey first (blank ++ (separator first ++ (before ++ '"' :: rest))) =
      .ok (some rest) := by
  have comma : isSpace ',' = false := by decide
  have quote : isSpace '"' = false := by decide
  cases first with
  | true =>
      simp only [separator, List.nil_append, Reader.nextKey, skipSpaces_blank blanks,
        skipSpaces_blank inner, skipSpaces_cons quote]
      simp
  | false =>
      simp only [separator, List.cons_append, List.nil_append, Reader.nextKey,
        skipSpaces_blank blanks, skipSpaces_cons comma, skipSpaces_blank inner,
        skipSpaces_cons quote]
      simp

/-- A member is read up to its value, which stands between blanks. -/
theorem Member.enters {P : α → List Char → Prop} {key : String} {value : α} {part : List Char}
    (h : Member IsText P (key, value) part) :
    ∃ before inside after, Blank before ∧ P value inside ∧ Blank after ∧
      ∀ {blank}, Blank blank → ∀ first rest, ∃ quoted ending,
        Reader.nextKey first (blank ++ (separator first ++ (part ++ rest))) = .ok (some quoted) ∧
        quotedRest quoted = .ok (key.toList, ending) ∧
        colon ending = .ok (before ++ (inside ++ (after ++ rest))) := by
  cases h with
  | @keyed _ _ front _ gap _ outside written between item =>
  cases item with
  | @padded before inside after inner value behind =>
  obtain ⟨parts, quoted, rfl⟩ := written
  refine ⟨before, inside, after, inner, value, behind, fun blanks first rest => ?_⟩
  simp only [List.append_assoc, List.cons_append, List.nil_append]
  exact ⟨_, _, nextKey_part blanks outside first _, quotedRest_flatten quoted _,
    colon_blank between _⟩

/-- The members behind the opening brace, or behind some other members. -/
theorem membersWithin_separated {members : List (String × α)}
    (written : List.Forall₂ (Member IsText (Reads read)) members parts) {steps : Nat}
    (room : parts.length < steps) (first : Bool) (blanks : Blank blank) (rest : List Char) :
    Reader.membersWithin read steps first (blank ++ (separated first parts ++ '\x7d' :: rest)) =
      .ok (members, rest) := by
  induction written generalizing steps first blank with
  | nil =>
      obtain ⟨steps, rfl⟩ := Nat.exists_eq_add_one.mpr room
      rw [separated, List.nil_append, Reader.membersWithin, nextKey_end blanks]
      simp only [bind, Except.bind, endOfObject_blank blanks, pure, Except.pure]
  | @cons member part _ _ here _ ih =>
      obtain ⟨steps, rfl⟩ := Nat.exists_eq_add_one.mpr (Nat.zero_lt_of_lt room)
      obtain ⟨key, value⟩ := member
      obtain ⟨before, inside, after, inner, reads, behind, enters⟩ := here.enters
      simp only [separated, List.append_assoc]
      obtain ⟨quoted, ending, next, text, value⟩ := enters blanks first _
      have others := ih (Nat.lt_of_succ_lt_succ room) false behind
      rw [Reader.membersWithin, next]
      simp only [bind, Except.bind, text, value, reads.eq inner, others, pure, Except.pure,
        String.ofList_toList]

/-! ## Entries in the order of their keys -/

/-- Entries whose keys ascend. -/
def Ascending (entries : List (String × α)) : Prop := entries.Pairwise (·.1 < ·.1)

variable {key : String} {value : α} {entries sorted : List (String × α)}

theorem perm_enter (fresh : ∀ entry ∈ entries, entry.1 ≠ key) :
    (Reader.enter key value entries).Perm ((key, value) :: entries) := by
  induction entries with
  | nil => exact .refl _
  | cons entry entries ih =>
      obtain ⟨here, later⟩ := List.forall_mem_cons.mp fresh
      rw [Reader.enter, if_neg (Ne.symm here)]
      split_ifs
      · exact .refl _
      · exact ((ih later).cons _).trans (.swap _ _ _)

theorem key_of_mem_enter {entry : String × α} (member : entry ∈ Reader.enter key value entries) :
    entry.1 = key ∨ ∃ old ∈ entries, entry.1 = old.1 := by
  induction entries with
  | nil => exact .inl (congrArg Prod.fst (List.mem_singleton.mp member))
  | cons old entries ih =>
      rw [Reader.enter] at member
      split_ifs at member
      · rcases List.mem_cons.mp member with rfl | later
        · exact .inl rfl
        · exact .inr ⟨entry, List.mem_cons_of_mem _ later, rfl⟩
      · rcases List.mem_cons.mp member with rfl | later
        · exact .inl rfl
        · exact .inr ⟨entry, later, rfl⟩
      · rcases List.mem_cons.mp member with rfl | later
        · exact .inr ⟨_, List.mem_cons_self, rfl⟩
        · refine (ih later).imp_right ?_
          rintro ⟨other, among, same⟩
          exact ⟨other, List.mem_cons_of_mem _ among, same⟩

theorem ascending_enter (ascending : Ascending entries) (key : String) (value : α) :
    Ascending (Reader.enter key value entries) := by
  induction entries with
  | nil => exact List.pairwise_singleton _ _
  | cons entry entries ih =>
      obtain ⟨least, ascending⟩ := List.pairwise_cons.mp ascending
      rw [Reader.enter]
      split_ifs with same below
      · exact List.pairwise_cons.mpr ⟨fun other member => same ▸ least other member, ascending⟩
      · have all : ∀ other ∈ entry :: entries, key < other.1 :=
          List.forall_mem_cons.mpr ⟨below, fun other member => below.trans (least other member)⟩
        exact List.pairwise_cons.mpr ⟨all, List.pairwise_cons.mpr ⟨least, ascending⟩⟩
      · refine List.pairwise_cons.mpr ⟨fun other member => ?_, ih ascending⟩
        rcases key_of_mem_enter member with new | ⟨old, among, kept⟩
        · exact new ▸ lt_of_le_of_ne (not_lt.mp below) (Ne.symm same)
        · exact kept ▸ least old among

theorem ascending_foldl_enter (ascending : Ascending sorted) (entries : List (String × α)) :
    Ascending
      (entries.foldl (fun entries (key, value) => Reader.enter key value entries) sorted) := by
  induction entries generalizing sorted with
  | nil => exact ascending
  | cons entry entries ih => exact ih (ascending_enter ascending entry.1 entry.2)

theorem perm_foldl_enter (distinct : (entries ++ sorted).Pairwise (·.1 ≠ ·.1)) :
    (entries.foldl (fun entries (key, value) => Reader.enter key value entries) sorted).Perm
      (entries ++ sorted) := by
  induction entries generalizing sorted with
  | nil => exact .refl _
  | cons entry entries ih =>
      obtain ⟨fresh, others⟩ := List.pairwise_cons.mp distinct
      have new : ∀ old ∈ sorted, old.1 ≠ entry.1 := fun old member =>
        (fresh old (List.mem_append_right _ member)).symm
      have first : (Reader.enter entry.1 entry.2 sorted).Perm (entry :: sorted) := perm_enter new
      have moved : (entries ++ Reader.enter entry.1 entry.2 sorted).Perm
          (entry :: entries ++ sorted) :=
        (first.append_left entries).trans List.perm_middle
      exact (ih ((moved.pairwise_iff fun h => Ne.symm h).mpr distinct)).trans moved

/-- Entries with distinct keys are put into the order of their keys. -/
theorem foldl_enter_eq (same : entries.Perm sorted) (ascending : Ascending sorted) :
    entries.foldl (fun entries (key, value) => Reader.enter key value entries) [] = sorted := by
  have apart : sorted.Pairwise (·.1 ≠ ·.1) := ascending.imp ne_of_lt
  have distinct : (entries ++ ([] : List (String × α))).Pairwise (·.1 ≠ ·.1) := by
    rw [List.append_nil]
    exact (same.pairwise_iff fun h => Ne.symm h).mpr apart
  have whole := perm_foldl_enter distinct
  rw [List.append_nil] at whole
  exact (whole.trans same).eq_of_pairwise
    (fun _ _ _ _ below above => absurd (below.trans above) (lt_irrefl _))
    (ascending_foldl_enter .nil entries) ascending

theorem ascending_of_dictionary {rest : List Char}
    (h : Reader.dictionary read s = .ok (entries, rest)) : Ascending entries := by
  rw [Reader.dictionary] at h
  split at h
  · obtain ⟨⟨members, after⟩, -, h⟩ := bind_eq_ok.mp h
    cases h
    exact ascending_foldl_enter .nil members
  · cases h

theorem reads_dictionary (h : IsObject IsText (Reads read) entries s) (same : entries.Perm sorted)
    (ascending : Ascending sorted) : Reads (Reader.dictionary read) sorted s := by
  obtain ⟨members, written, encloses⟩ := h
  refine ⟨encloses.begins, fun blanks rest => ?_⟩
  rw [Reader.dictionary, encloses.begins.skipSpaces_eq blanks]
  obtain ⟨inner, between, rfl⟩ := encloses
  simp only [Bracket.opening, Bracket.closing, List.cons_append, List.append_assoc,
    List.nil_append]
  rw [membersWithin_separated written (length_lt_separated _ _ _ _) true between rest]
  simp only [bind, Except.bind, pure, Except.pure, foldl_enter_eq same ascending]

/-! ## Records -/

/-- What the members of an object tell about the fields of a record. A field that is there is there
    once, and any other member has some value. -/
inductive Tells (fields : List (Reader.Field α)) :
    List (String × List Char) → List (String × α) → Prop where
  | nothing : Tells fields [] []
  | known {name field value s members values} : fields.find? (·.name == name) = some field →
      Reads field.read value s → (∀ other ∈ values, other.1 ≠ name) →
      Tells fields members values → Tells fields ((name, s) :: members) ((name, value) :: values)
  | unknown {name s members values} : (∀ field ∈ fields, field.name ≠ name) → IsValue s →
      Tells fields members values → Tells fields ((name, s) :: members) values

variable {fields : List (Reader.Field α)} {members : List (String × List Char)}
  {values : List (String × α)}

/-- The fields among the members behind the opening brace, or behind some other members. -/
theorem fieldsWithin_separated (tells : Tells fields members values)
    (written : List.Forall₂ (Member IsText Eq) members parts) {seen : List String}
    (fresh : ∀ value ∈ values, value.1 ∉ seen) {steps : Nat} (room : parts.length < steps)
    (first : Bool) (blanks : Blank blank) (rest : List Char) :
    Reader.fieldsWithin fields steps seen first
        (blank ++ (separated first parts ++ '\x7d' :: rest)) =
      .ok (values, rest) := by
  induction tells generalizing parts seen steps first blank with
  | nothing =>
      cases written
      obtain ⟨steps, rfl⟩ := Nat.exists_eq_add_one.mpr room
      rw [separated, List.nil_append, Reader.fieldsWithin, nextKey_end blanks]
      simp only [bind, Except.bind, endOfObject_blank blanks, pure, Except.pure]
  | @known name field value s members values found reads once _ ih =>
      obtain ⟨steps, rfl⟩ := Nat.exists_eq_add_one.mpr (Nat.zero_lt_of_lt room)
      obtain ⟨part, parts, here, later, rfl⟩ := List.forall₂_cons_left_iff.mp written
      obtain ⟨before, inside, after, inner, rfl, behind, enters⟩ := here.enters
      obtain ⟨new, fresh⟩ := List.forall_mem_cons.mp fresh
      simp only [separated, List.append_assoc]
      obtain ⟨quoted, ending, next, text, value⟩ := enters blanks first _
      have still : ∀ value ∈ values, value.1 ∉ name :: seen := fun value member =>
        List.mem_cons.not.mpr (not_or.mpr ⟨once value member, fresh value member⟩)
      have others := ih later still (Nat.lt_of_succ_lt_succ room) false behind
      rw [Reader.fieldsWithin, next]
      simp only [bind, Except.bind, text, String.ofList_toList, found, new, if_false, value,
        reads.eq inner, others, pure, Except.pure]
  | @unknown name s members values other isValue _ ih =>
      obtain ⟨steps, rfl⟩ := Nat.exists_eq_add_one.mpr (Nat.zero_lt_of_lt room)
      obtain ⟨part, parts, here, later, rfl⟩ := List.forall₂_cons_left_iff.mp written
      obtain ⟨before, inside, after, inner, rfl, behind, enters⟩ := here.enters
      simp only [separated, List.append_assoc]
      obtain ⟨quoted, ending, next, text, value⟩ := enters blanks first _
      have others := ih later fresh (Nat.lt_of_succ_lt_succ room) false behind
      have missing : fields.find? (·.name == name) = none :=
        List.find?_eq_none.mpr fun field member => by simpa using other field member
      have skipped := isValue.skipValue_eq inner
        (Ended.blank_append behind (ended_separated parts .object rest))
      simp only [Bracket.closing] at skipped
      rw [Reader.fieldsWithin, next]
      simp only [bind, Except.bind, text, String.ofList_toList, missing, value, skipped, others]

theorem record_object {expected : String} (tells : Tells fields members values)
    (written : IsObject IsText Eq members s) (blanks : Blank blank) (rest : List Char) :
    Reader.record expected fields (blank ++ (s ++ rest)) = .ok ((.object, values), rest) := by
  obtain ⟨parts, each, encloses⟩ := written
  rw [Reader.record, encloses.begins.skipSpaces_eq blanks]
  obtain ⟨inner, between, rfl⟩ := encloses
  simp only [Bracket.opening, Bracket.closing, List.cons_append, List.append_assoc,
    List.nil_append]
  rw [fieldsWithin_separated tells each (fun _ _ => List.not_mem_nil)
    (length_lt_separated _ _ _ _) true between rest]
  rfl

/-- The reader of a field under its name. -/
def RecordField.reader {σ : Type} (field : RecordField σ) : Reader.Field (σ → σ) :=
  ⟨field.name, field.read⟩

/-- A record whose fields may be missing is what it is at first but for the fields that are
    there. -/
theorem reads_record {σ : Type} {expected : String} {initial : σ} {fields : List (RecordField σ)}
    {changes : List (String × (σ → σ))}
    (missable : ∀ field ∈ fields, field.presence.mayMiss .object)
    (tells : Tells (fields.map RecordField.reader) members changes)
    (written : IsObject IsText Eq members s) :
    Reads (Format.record expected initial fields).read
      (changes.foldl (fun value (_, change) => change value) initial) s := by
  refine ⟨written.elim fun _ h => h.2.begins, fun {blank} blanks rest => ?_⟩
  have present : fields.find? (fun field => !field.presence.mayMiss .object &&
      !changes.any (·.1 == field.name)) = none :=
    List.find?_eq_none.mpr fun field member => by simp [missable field member]
  have read : Reader.record expected (fields.map fun field => ⟨field.name, field.read⟩)
      (blank ++ (s ++ rest)) = .ok ((.object, changes), rest) :=
    record_object tells written blanks rest
  simp only [Format.record, read, Format.assemble, present, bind, Except.bind, pure, Except.pure]

/-- A field that reads a value sets it in a record. -/
theorem reads_free {σ : Type} {name : String} {f : Format α} {get : σ → α} {set : σ → α → σ}
    {value : α} (h : Reads f.read value s) :
    Reads (RecordField.free name f get set).read (fun record => set record value) s :=
  h.mapped fun value record => set record value

theorem readAll_eq {value : α} (reads : Reads read value s) {before after : List Char}
    (front : Blank before) (behind : Blank after) :
    Reader.readAll read (before ++ (s ++ after)) = .ok value := by
  have empty : skipSpaces after = [] := List.dropWhile_eq_nil_iff.mpr behind
  simp only [Reader.readAll, reads.eq front, bind, Except.bind, empty]
  rfl

/-! ## What is read -/

/-- Whether a value is what some field is read as somewhere. -/
def Found (fields : List (Reader.Field α)) (value : α) : Prop :=
  ∃ field ∈ fields, ∃ s rest, field.read s = .ok (value, rest)

theorem found_fieldsWithin {steps : Nat} {seen : List String} {first : Bool}
    (h : Reader.fieldsWithin fields steps seen first s = .ok (values, rest)) :
    ∀ entry ∈ values, Found fields entry.2 := by
  induction steps generalizing seen first s values rest with
  | zero => cases h
  | succ steps ih =>
      rw [Reader.fieldsWithin] at h
      obtain ⟨next, -, h⟩ := bind_eq_ok.mp h
      cases next with
      | none =>
          cases h
          exact nofun
      | some s =>
          obtain ⟨⟨key, behind⟩, -, h⟩ := bind_eq_ok.mp h
          dsimp only at h
          cases known : fields.find? (·.name == String.ofList key) with
          | some field =>
              simp only [known] at h
              split_ifs at h
              · cases h
              · obtain ⟨text, -, h⟩ := bind_eq_ok.mp h
                obtain ⟨⟨value, after⟩, reads, h⟩ := bind_eq_ok.mp h
                obtain ⟨⟨others, last⟩, later, h⟩ := bind_eq_ok.mp h
                cases h
                exact List.forall_mem_cons.mpr
                  ⟨⟨field, List.mem_of_find?_eq_some known, _, _, reads⟩, ih later⟩
          | none =>
              simp only [known] at h
              obtain ⟨value, -, h⟩ := bind_eq_ok.mp h
              obtain ⟨after, -, h⟩ := bind_eq_ok.mp h
              exact ih h

theorem found_fieldsInOrder {first : Bool}
    (h : Reader.fieldsInOrder fields first s = .ok (values, rest)) :
    ∀ entry ∈ values, Found fields entry.2 := by
  induction fields generalizing first s values rest with
  | nil =>
      cases h
      exact nofun
  | cons field fields ih =>
      rw [Reader.fieldsInOrder] at h
      obtain ⟨next, -, h⟩ := bind_eq_ok.mp h
      cases next with
      | none =>
          cases h
          exact nofun
      | some s =>
          obtain ⟨⟨value, after⟩, reads, h⟩ := bind_eq_ok.mp h
          obtain ⟨⟨others, last⟩, later, h⟩ := bind_eq_ok.mp h
          cases h
          refine List.forall_mem_cons.mpr ⟨⟨field, List.mem_cons_self, _, _, reads⟩, ?_⟩
          intro entry member
          obtain ⟨other, among, found⟩ := ih later entry member
          exact ⟨other, List.mem_cons_of_mem _ among, found⟩

theorem found_record {expected : String} {form : Reader.RecordForm}
    (h : Reader.record expected fields s = .ok ((form, values), rest)) :
    ∀ entry ∈ values, Found fields entry.2 := by
  rw [Reader.record] at h
  split at h
  · obtain ⟨⟨found, after⟩, within, h⟩ := bind_eq_ok.mp h
    cases h
    exact found_fieldsWithin within
  · obtain ⟨⟨found, after⟩, inOrder, h⟩ := bind_eq_ok.mp h
    obtain ⟨after, -, h⟩ := bind_eq_ok.mp h
    cases h
    exact found_fieldsInOrder inOrder
  · cases h

/-- A record that is read is made from what it is at first by the fields that are there. -/
theorem foldl_of_assemble {σ : Type} {expected : String} {initial value : σ}
    {fields : List (RecordField σ)} {form : Reader.RecordForm}
    {changes : List (String × (σ → σ))}
    (h : Format.assemble expected initial fields form changes = .ok value) :
    changes.foldl (fun value (_, change) => change value) initial = value := by
  simp only [Format.assemble] at h
  split at h
  · exact Except.ok.inj h
  · cases h
  · cases h

end ParameterHints.Json
