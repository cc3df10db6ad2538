import ParameterHints.Proofs.Denylist.Compilation

/-! # Parentheses of a pattern

The first opening parenthesis of a pattern ends the name and begins the parameter list, and the list
has to be closed by the end of the pattern and to have no other parentheses. What is wrong with a
list is always reported, but nobody looks for closing parentheses in the name.
-/

namespace ParameterHints.MethodPattern

/-- There are no parentheses, or an opening one and a closing one, and the closing one is the last
    character. -/
def Balanced (pattern : List Char) : Prop :=
  ('(' ∉ pattern ∧ ')' ∉ pattern) ∨
    (pattern.count '(' = 1 ∧ pattern.count ')' = 1 ∧ pattern.getLast? = some ')')

instance : DecidablePred Balanced := fun _ => inferInstanceAs (Decidable (_ ∨ _))

/-- A text without parentheses. -/
def Unlisted (text : List Char) : Prop := ∀ c ∈ text, ¬ isParenthesis c

instance : DecidablePred Unlisted := fun text =>
  decidable_of_iff (text.all fun c => !isParenthesis c) (by simp [Unlisted])

/-- What may stand behind the parenthesis that opens a list: no parentheses but the one that closes
    the list at the end. -/
def Closed (list : List Char) : Prop := ∃ inner, list = inner ++ [')'] ∧ Unlisted inner

variable {text pattern front list inner : List Char}

/-- The part of a pattern in front of its parameter list. -/
def namePart (pattern : List Char) : List Char := pattern.takeWhile (· != '(')

/-- The parameter list of a pattern with all that stands behind it, from the first opening
    parenthesis on. -/
def listPart (pattern : List Char) : List Char := pattern.dropWhile (· != '(')

/-! ## What is balanced -/

theorem unlisted_iff : Unlisted text ↔ '(' ∉ text ∧ ')' ∉ text := by
  constructor
  · exact fun h => ⟨fun member => h _ member rfl, fun member => h _ member rfl⟩
  · rintro ⟨unopened, unclosed⟩ c member parenthesis
    simp only [isParenthesis, Bool.or_eq_true, beq_iff_eq] at parenthesis
    rcases parenthesis with rfl | rfl
    · exact unopened member
    · exact unclosed member

theorem namePart_opened (unopened : '(' ∉ front) (list : List Char) :
    namePart (front ++ '(' :: list) = front := by
  rw [namePart, List.takeWhile_append_of_pos (not_opening_of_mem unopened),
    List.takeWhile_cons_of_neg (by simp), List.append_nil]

theorem listPart_opened (unopened : '(' ∉ front) (list : List Char) :
    listPart (front ++ '(' :: list) = '(' :: list := by
  rw [listPart, List.dropWhile_append_of_pos (not_opening_of_mem unopened),
    List.dropWhile_cons_of_neg (by simp)]

theorem namePart_unlisted (unlisted : '(' ∉ pattern) : namePart pattern = pattern :=
  List.takeWhile_eq_self_iff.mpr (not_opening_of_mem unlisted)

theorem listPart_unlisted (unlisted : '(' ∉ pattern) : listPart pattern = [] :=
  List.dropWhile_eq_nil_iff.mpr (not_opening_of_mem unlisted)

theorem balanced_unlisted_iff (unlisted : '(' ∉ pattern) : Balanced pattern ↔ ')' ∉ pattern := by
  simp [Balanced, unlisted, List.count_eq_zero.mpr unlisted]

theorem balanced_opening_iff : Balanced ('(' :: list) ↔ Closed list := by
  constructor
  · rintro (⟨unopened, -⟩ | ⟨once, closing, last⟩)
    · exact absurd List.mem_cons_self unopened
    · -- The last character is the closing parenthesis, so it is not the opening one.
      obtain ⟨before, split⟩ := List.getLast?_eq_some_iff.mp last
      cases before with
      | nil => cases split
      | cons first inner =>
          obtain ⟨rfl, rfl⟩ := List.cons_eq_cons.mp split
          have unopened : '(' ∉ inner := by simpa [List.count_eq_zero] using once
          have unclosed : ')' ∉ inner := by simpa [List.count_eq_zero] using closing
          exact ⟨inner, rfl, unlisted_iff.mpr ⟨unopened, unclosed⟩⟩
  · rintro ⟨inner, rfl, free⟩
    obtain ⟨unopened, unclosed⟩ := unlisted_iff.mp free
    refine .inr ⟨?_, ?_, ?_⟩
    · simpa [List.count_eq_zero] using unopened
    · simpa [List.count_eq_zero] using unclosed
    · rw [← List.cons_append, List.getLast?_concat]

/-- A pattern with a list is balanced if the list is and no parenthesis stands in front of it. -/
theorem balanced_opened_iff (unopened : '(' ∉ front) :
    Balanced (front ++ '(' :: list) ↔ ')' ∉ front ∧ Closed list := by
  rw [← balanced_opening_iff]
  have opened : '(' ∈ front ++ '(' :: list := List.mem_append_right front List.mem_cons_self
  have last : (front ++ '(' :: list).getLast? = ('(' :: list).getLast? := by
    rw [List.getLast?_append_of_ne_nil _ (List.cons_ne_nil _ _)]
  simp only [Balanced, opened, not_true_eq_false, false_and, false_or, List.mem_cons_self,
    List.count_append, List.count_eq_zero.mpr unopened, last, Nat.zero_add]
  constructor
  · rintro ⟨once, closing, ends⟩
    have there : 0 < ('(' :: list).count ')' :=
      List.count_pos_iff.mpr (List.mem_of_getLast? ends)
    exact ⟨List.count_eq_zero.mp (by omega), once, by omega, ends⟩
  · rintro ⟨unclosed, once, closing, ends⟩
    rw [List.count_eq_zero.mpr unclosed]
    exact ⟨once, by omega, ends⟩

/-- A pattern is balanced if its list is and there is no closing parenthesis in its name. -/
theorem balanced_iff_parts :
    Balanced pattern ↔ ')' ∉ namePart pattern ∧ Balanced (listPart pattern) := by
  by_cases listed : '(' ∈ pattern
  · obtain ⟨front, list, rfl, unopened⟩ := List.eq_append_cons_of_mem listed
    rw [namePart_opened unopened, listPart_opened unopened, balanced_opening_iff,
      balanced_opened_iff unopened]
  · rw [namePart_unlisted listed, listPart_unlisted listed, balanced_unlisted_iff listed]
    simp [Balanced]

/-! ## What is reported -/

theorem split_closed (unopened : '(' ∉ front) (free : Unlisted inner) :
    split (front ++ '(' :: (inner ++ [')'])) = .ok (Text.trim front, some (entries inner)) := by
  have clean : inner.any isParenthesis = false := List.any_eq_false.mpr free
  rw [split, ← listPart, ← namePart, listPart_opened unopened, namePart_opened unopened]
  simp [clean]

theorem split_unclosed (unopened : '(' ∉ front) (unclosed : ¬ Closed list) :
    split (front ++ '(' :: list) = .error (.unbalanced (front ++ '(' :: list)) := by
  rw [split, ← listPart, listPart_opened unopened]
  refine if_neg ?_
  rintro ⟨last, clean⟩
  refine unclosed ?_
  obtain ⟨inner, rfl⟩ := List.getLast?_eq_some_iff.mp last
  rw [List.dropLast_concat] at clean
  exact ⟨inner, rfl, by simpa [Unlisted] using clean⟩

theorem split_eq_unbalanced_iff {p : List Char} :
    split pattern = .error (.unbalanced p) ↔ p = pattern ∧ ¬ Balanced (listPart pattern) := by
  by_cases listed : '(' ∈ pattern
  · obtain ⟨front, list, rfl, unopened⟩ := List.eq_append_cons_of_mem listed
    rw [listPart_opened unopened, balanced_opening_iff]
    by_cases closed : Closed list
    · obtain ⟨inner, rfl, free⟩ := closed
      rw [split_closed unopened free]
      exact ⟨nofun, fun ⟨_, unclosed⟩ => absurd ⟨inner, rfl, free⟩ unclosed⟩
    · rw [split_unclosed unopened closed]
      simp [closed, eq_comm]
  · rw [split_unlisted listed, listPart_unlisted listed]
    simp [Balanced]

/-- Only the parts of a pattern can be out of balance; a name has other faults. -/
theorem parse_eq_unbalanced_iff {p : List Char} :
    parse text = .error (.unbalanced p) ↔ split (Text.trim text) = .error (.unbalanced p) := by
  rw [parse]
  cases split (Text.trim text) with
  | error fault => simp [Bind.bind, Except.bind]
  | ok parts =>
      obtain ⟨name, list?⟩ := parts
      constructor
      · intro wrong
        dsimp only [Bind.bind, Except.bind] at wrong
        split at wrong
        · cases wrong
        · split at wrong <;> cases wrong
      · intro wrong
        cases wrong

/-- A parameter list that is not closed at the end, or has a parenthesis inside, is always reported,
    with the pattern without the blanks around it, and no balanced pattern is reported so. As long
    as the name has no closing parenthesis, the patterns that are reported are those that are not
    balanced. A closing parenthesis in the name goes unseen. -/
theorem open_lists_reported (text : List Char) :
    (∀ p, parse text = .error (.unbalanced p) ↔
      p = Text.trim text ∧ ¬ Balanced (listPart (Text.trim text))) ∧
    (Balanced (Text.trim text) → ∀ p, parse text ≠ .error (.unbalanced p)) ∧
    (')' ∉ namePart (Text.trim text) → ∀ p, parse text = .error (.unbalanced p) ↔
      p = Text.trim text ∧ ¬ Balanced (Text.trim text)) ∧
    ∀ q, parse text = .ok q → ¬ Balanced (Text.trim text) → ')' ∈ namePart (Text.trim text) := by
  have reported (p : List Char) : parse text = .error (.unbalanced p) ↔
      p = Text.trim text ∧ ¬ Balanced (listPart (Text.trim text)) :=
    parse_eq_unbalanced_iff.trans split_eq_unbalanced_iff
  have parts : Balanced (Text.trim text) ↔
      ')' ∉ namePart (Text.trim text) ∧ Balanced (listPart (Text.trim text)) := balanced_iff_parts
  refine ⟨reported, fun balanced p wrong => ?_, fun unclosed p => ?_, fun q built faulty => ?_⟩
  · exact ((reported p).mp wrong).2 (parts.mp balanced).2
  · rw [reported, parts, and_iff_right unclosed]
  · by_contra unclosed
    have wrong : ¬ Balanced (listPart (Text.trim text)) := fun list =>
      faulty (parts.mpr ⟨unclosed, list⟩)
    have failed := (reported (Text.trim text)).mpr ⟨rfl, wrong⟩
    rw [built] at failed
    cases failed

/-- Two lists in a row are no list, and the first fault is that of the parentheses, though the name
    is no glob either. -/
theorem second_list_reported :
    let text := "\u2003[a.B.run(x)(y) ".toList
    ')' ∉ namePart (Text.trim text) ∧ ¬ Balanced (Text.trim text) ∧
      parse text = .error (.unbalanced "[a.B.run(x)(y)".toList) := by
  intro text
  have unclosed : ')' ∉ namePart (Text.trim text) := by decide +kernel
  have faulty : ¬ Balanced (Text.trim text) := by decide +kernel
  have form : "[a.B.run(x)(y)".toList = Text.trim text := by decide +kernel
  exact ⟨unclosed, faulty, ((open_lists_reported text).2.2.1 unclosed _).mpr ⟨form, faulty⟩⟩

/-- A closing parenthesis without an opening one is taken for a part of the name. -/
theorem closing_alone_accepted :
    let text := "a.B.run)".toList
    Text.trim text ≠ [] ∧ ¬ Balanced (Text.trim text) ∧ ∃ q, parse text = .ok q :=
  ⟨by decide +kernel, by decide +kernel, fault?_eq_none_iff.mp (by decide +kernel)⟩

end ParameterHints.MethodPattern
