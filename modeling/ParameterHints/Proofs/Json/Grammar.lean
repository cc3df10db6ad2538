import Mathlib.Data.List.DropRight
import ParameterHints.Proofs.Json.Quotation

/-! # The grammar of JSON

Which texts are JSON, and which of them means a value that is known. Blanks may stand between any
two lexemes. In a list or an object the values are told by a relation, so that the same grammar
serves for values of any type and for those of which only the text counts.
-/

namespace ParameterHints.Json

/-- Nothing but blanks. -/
def Blank (s : List Char) : Prop := ∀ c ∈ s, isSpace c

/-! ## Words and numbers -/

inductive IsBoolean : Bool → List Char → Prop where
  | yes : IsBoolean true ['t', 'r', 'u', 'e']
  | no : IsBoolean false ['f', 'a', 'l', 's', 'e']

/-- Some digits, at least one. -/
def IsDigits (s : List Char) : Prop := s ≠ [] ∧ ∀ c ∈ s, isDigit c

/-- The whole part of a number. No digit may follow a leading zero. -/
def IsWhole (s : List Char) : Prop := IsDigits s ∧ (s.head? = some '0' → s = ['0'])

inductive IsFraction : List Char → Prop where
  | none : IsFraction []
  | point {digits} : IsDigits digits → IsFraction ('.' :: digits)

inductive IsExponent : List Char → Prop where
  | none : IsExponent []
  | power {letter sign digits} : letter = 'e' ∨ letter = 'E' →
      sign = [] ∨ sign = ['+'] ∨ sign = ['-'] → IsDigits digits →
      IsExponent (letter :: (sign ++ digits))

inductive IsNumber : List Char → Prop where
  | parts {sign whole fraction exponent} : sign = [] ∨ sign = ['-'] → IsWhole whole →
      IsFraction fraction → IsExponent exponent →
      IsNumber (sign ++ (whole ++ (fraction ++ exponent)))

/-! ## Lists and objects -/

def Bracket.opening : Bracket → Char
  | list => '['
  | object => '\x7b'

/-- A value between brackets, with the blanks around it. -/
inductive Item {α : Type} (P : α → List Char → Prop) (value : α) : List Char → Prop where
  | padded {before inside after} : Blank before → P value inside → Blank after →
      Item P value (before ++ (inside ++ after))

/-- A key and a value between braces, with the blanks around them. -/
inductive Member {κ α : Type} (K : κ → List Char → Prop) (P : α → List Char → Prop) :
    κ × α → List Char → Prop where
  | keyed {key value before quoted gap item} : Blank before → K key quoted → Blank gap →
      Item P value item → Member K P (key, value) (before ++ (quoted ++ (gap ++ ':' :: item)))

/-- What stands in front of a part, unless it is the first. -/
def separator : (first : Bool) → List Char
  | true => []
  | false => [',']

/-- Some parts with a separator in front of each. -/
def separated : (first : Bool) → List (List Char) → List Char
  | _, [] => []
  | first, part :: parts => separator first ++ (part ++ separated false parts)

/-- Some parts in brackets, or nothing but blanks. -/
def Encloses (b : Bracket) (parts : List (List Char)) (s : List Char) : Prop :=
  ∃ blank, Blank blank ∧ s = b.opening :: (blank ++ (separated true parts ++ [b.closing]))

/-- The ways to write a list, given those to write its elements. -/
def IsList {α : Type} (P : α → List Char → Prop) (values : List α) (s : List Char) : Prop :=
  ∃ items, List.Forall₂ (Item P) values items ∧ Encloses .list items s

/-- The ways to write an object with its members in their order, given those to write a key and a
    value. -/
def IsObject {κ α : Type} (K : κ → List Char → Prop) (P : α → List Char → Prop)
    (members : List (κ × α)) (s : List Char) : Prop :=
  ∃ parts, List.Forall₂ (Member K P) members parts ∧ Encloses .object parts s

/-- The texts of values of any type, nested to any depth. Keys may be repeated. -/
inductive IsValue : List Char → Prop where
  | null : IsValue ['n', 'u', 'l', 'l']
  | boolean {b s} : IsBoolean b s → IsValue s
  | number {s} : IsNumber s → IsValue s
  | text {s} : IsQuoted s → IsValue s
  | list {values s} : (∀ value ∈ values, IsValue value) → IsList Eq values s → IsValue s
  | object {members : List (List Char × List Char)} {s} :
      (∀ member ∈ members, IsQuoted member.1) → (∀ member ∈ members, IsValue member.2) →
      IsObject Eq Eq members s → IsValue s

variable {α κ : Type} {P Q : α → List Char → Prop} {K : κ → List Char → Prop} {b : Bracket}
  {c : Char} {s blank item : List Char} {value : α} {parts : List (List Char)}

/-! ## Blanks and beginnings -/

theorem Blank.nil : Blank [] := nofun

theorem Blank.append {blank' : List Char} (h : Blank blank) (h' : Blank blank') :
    Blank (blank ++ blank') := List.forall_mem_append.mpr ⟨h, h'⟩

theorem skipSpaces_blank (h : Blank blank) (s : List Char) :
    skipSpaces (blank ++ s) = skipSpaces s := by
  rw [skipSpaces, List.dropWhile_append_of_pos h, skipSpaces]

theorem skipSpaces_cons (solid : isSpace c = false) (s : List Char) :
    skipSpaces (c :: s) = c :: s := by
  rw [skipSpaces, List.dropWhile_cons_of_neg (by simp [solid])]

theorem skipSpaces_skipSpaces (s : List Char) : skipSpaces (skipSpaces s) = skipSpaces s :=
  List.dropWhile_idempotent _ _

/-- Whether a text begins as a value does, neither with a blank nor with the end of a list. -/
def Begins (s : List Char) : Prop := ∃ c rest, s = c :: rest ∧ isSpace c = false ∧ c ≠ ']'

theorem Begins.skipSpaces_eq (h : Begins s) (blanks : Blank blank) (rest : List Char) :
    skipSpaces (blank ++ (s ++ rest)) = s ++ rest := by
  obtain ⟨c, more, rfl, solid, -⟩ := h
  rw [skipSpaces_blank blanks]
  exact skipSpaces_cons solid _

theorem Encloses.begins (h : Encloses b parts s) : Begins s := by
  obtain ⟨blank, -, rfl⟩ := h
  cases b
  all_goals exact ⟨_, _, rfl, by decide, by decide⟩

theorem IsBoolean.begins {b : Bool} (h : IsBoolean b s) : Begins s := by
  cases h
  all_goals exact ⟨_, _, rfl, by decide, by decide⟩

theorem IsDigits.first (h : IsDigits s) : ∃ c rest, s = c :: rest ∧ isDigit c := by
  obtain ⟨given, all⟩ := h
  obtain ⟨c, rest, rfl⟩ := List.exists_cons_of_ne_nil given
  exact ⟨c, rest, rfl, all c List.mem_cons_self⟩

theorem IsNumber.first (h : IsNumber s) : ∃ c rest, s = c :: rest ∧ (c = '-' ∨ isDigit c) := by
  obtain ⟨rfl | rfl, natural, -, -⟩ := h
  · obtain ⟨c, rest, rfl, digit⟩ := natural.1.first
    exact ⟨c, _, rfl, .inr digit⟩
  · exact ⟨'-', _, rfl, .inl rfl⟩

/-- A number begins with none of the characters with which anything else may begin. -/
theorem not_of_number_first {d : Char} (first : c = '-' ∨ isDigit c) (sign : d ≠ '-')
    (digit : isDigit d = false) : c ≠ d := by
  rintro rfl
  rcases first with rfl | isDigit
  · exact sign rfl
  · rw [digit] at isDigit
    exact absurd isDigit (by decide)

theorem IsNumber.begins (h : IsNumber s) : Begins s := by
  obtain ⟨c, rest, rfl, first⟩ := h.first
  have other {d : Char} := not_of_number_first (d := d) first
  refine ⟨c, rest, rfl, ?_, other (by decide) (by decide)⟩
  simp only [isSpace, Bool.or_eq_false_iff, beq_eq_false_iff_ne]
  exact ⟨⟨⟨other (by decide) (by decide), other (by decide) (by decide)⟩,
    other (by decide) (by decide)⟩, other (by decide) (by decide)⟩

theorem IsQuoted.begins (h : IsQuoted s) : Begins s := by
  obtain ⟨parts, -, rfl⟩ := h
  exact ⟨'"', _, rfl, by decide, by decide⟩

theorem IsValue.begins (h : IsValue s) : Begins s := by
  cases h with
  | null => exact ⟨'n', _, rfl, by decide, by decide⟩
  | boolean b => exact b.begins
  | number n => exact n.begins
  | text t => exact t.begins
  | list _ written => exact written.elim fun _ h => h.2.begins
  | object _ _ written => exact written.elim fun _ h => h.2.begins

/-! ## Parts of lists and objects -/

theorem length_le_separated (first : Bool) (parts : List (List Char)) :
    parts.length ≤ (separated first parts).length + first.toNat := by
  induction parts generalizing first with
  | nil => exact Nat.zero_le _
  | cons part parts ih =>
      have := ih false
      cases first
      all_goals
        simp only [separated, separator, List.length_cons, List.length_nil, List.length_append,
          Bool.toNat_true, Bool.toNat_false] at *
        omega

theorem length_lt_separated (blank : List Char) (parts : List (List Char)) (c : Char)
    (rest : List Char) :
    parts.length < (blank ++ (separated true parts ++ c :: rest)).length + 1 := by
  have := length_le_separated true parts
  simp only [List.length_append, List.length_cons, Bool.toNat_true] at *
  omega

theorem Item.imp (h : Item P value item) (weaker : ∀ s, P value s → Q value s) :
    Item Q value item := by
  obtain ⟨before, inside, after⟩ := h
  exact .padded before (weaker _ inside) after

theorem Member.imp {member : κ × α} (h : Member K P member item)
    (weaker : ∀ s, P member.2 s → Q member.2 s) : Member K Q member item := by
  obtain ⟨before, quoted, gap, value⟩ := h
  exact .keyed before quoted gap (value.imp weaker)

theorem IsList.imp {values : List α} (h : IsList P values s)
    (weaker : ∀ value s, P value s → Q value s) : IsList Q values s := by
  obtain ⟨items, each, encloses⟩ := h
  exact ⟨items, each.imp fun value _ item => item.imp (weaker value), encloses⟩

theorem IsObject.imp {members : List (κ × α)} (h : IsObject K P members s)
    (weaker : ∀ value s, P value s → Q value s) : IsObject K Q members s := by
  obtain ⟨parts, each, encloses⟩ := h
  exact ⟨parts, each.imp fun member _ part => part.imp (weaker member.2), encloses⟩

end ParameterHints.Json
