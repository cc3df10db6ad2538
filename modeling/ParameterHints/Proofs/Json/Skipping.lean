import ParameterHints.Proofs.Json.Grammar

/-! # Looking through values

Every value that the grammar allows is looked through, however deep it is nested, and what stands
behind it is left. The brackets that are open are no part of the recursion over a value: whatever
was open before a value is open behind it, and each value takes a number of steps that its length
bounds.
-/

namespace ParameterHints.Json

/-- Whether a text does not begin with a digit. -/
def Undigited (rest : List Char) : Prop := ∀ c ∈ rest.head?, isDigit c = false

/-- Whether nothing at the beginning of a text belongs to a number in front of it. -/
def Ended (rest : List Char) : Prop :=
  ∀ c ∈ rest.head?, isDigit c = false ∧ c ≠ '.' ∧ c ≠ 'e' ∧ c ≠ 'E'

variable {c : Char} {s rest blank digits whole fraction exponent : List Char}

/-! ## Numbers -/

theorem Ended.undigited (h : Ended rest) : Undigited rest := fun c first => (h c first).1

theorem skipDigits_append (given : IsDigits digits) (behind : Undigited rest) :
    skipDigits (digits ++ rest) = .ok rest := by
  obtain ⟨some, all⟩ := given
  obtain ⟨first, more, rfl⟩ := List.exists_cons_of_ne_nil some
  rw [List.cons_append, skipDigits, if_pos (all first List.mem_cons_self), ← List.cons_append,
    List.dropWhile_append_of_pos all]
  cases rest with
  | nil => rfl
  | cons c rest => rw [List.dropWhile_cons_of_neg (by simp [behind c rfl])]

theorem IsDigits.exponentSign_eq (given : IsDigits digits) (rest : List Char) :
    exponentSign (digits ++ rest) = (false, digits ++ rest) := by
  obtain ⟨first, more, rfl, digit⟩ := given.first
  rw [List.cons_append, exponentSign]
  · rintro _ ⟨⟩
    exact absurd digit (by decide)
  · rintro _ ⟨⟩
    exact absurd digit (by decide)

theorem skipExponent_append (given : IsExponent exponent) (behind : Ended rest) :
    skipExponent (exponent ++ rest) = .ok rest := by
  cases given with
  | none =>
      cases rest with
      | nil => rfl
      | cons c rest =>
          obtain ⟨-, -, small, large⟩ := behind c rfl
          rw [List.nil_append, skipExponent]
          · rintro _ ⟨⟩
            exact small rfl
          · rintro _ ⟨⟩
            exact large rfl
  | @power letter sign digits letters signs given =>
      have signed : (exponentSign (sign ++ (digits ++ rest))).2 = digits ++ rest := by
        rcases signs with rfl | rfl | rfl
        · rw [List.nil_append, given.exponentSign_eq]
        · rfl
        · rfl
      rcases letters with rfl | rfl
      all_goals
        rw [List.cons_append, List.append_assoc, skipExponent, signed,
          skipDigits_append given behind.undigited]

theorem IsExponent.undigited (h : IsExponent exponent) (behind : Ended rest) :
    Undigited (exponent ++ rest) := by
  cases h with
  | none => exact behind.undigited
  | power letters _ _ =>
      rintro c ⟨⟩
      rcases letters with rfl | rfl
      all_goals decide

/-- No digit stands behind a leading zero. -/
theorem IsWhole.alone (natural : IsWhole whole) (behind : Undigited s) :
    ¬ ((whole ++ s).head? = some '0' ∧ ((whole ++ s).tail.head?.any isDigit)) := by
  obtain ⟨⟨given, -⟩, leading⟩ := natural
  rintro ⟨zero, second⟩
  rw [List.head?_append_of_ne_nil _ given] at zero
  rw [leading zero] at second
  obtain ⟨c, first, digit⟩ := (Option.any_eq_true _ _).mp second
  rw [behind c first] at digit
  exact absurd digit (by decide)

theorem skipUnsigned_whole (natural : IsWhole whole) (behind : Undigited s)
    (pointless : ∀ more, s ≠ '.' :: more) : skipUnsigned (whole ++ s) = skipExponent s := by
  rw [skipUnsigned, skipDigits_append natural.1 behind]
  simp only [natural.alone behind, if_false, bind, Except.bind]

theorem skipUnsigned_point (natural : IsWhole whole) (given : IsDigits digits)
    (behind : Undigited s) :
    skipUnsigned (whole ++ '.' :: (digits ++ s)) = skipExponent s := by
  have point : Undigited ('.' :: (digits ++ s)) := by
    rintro c ⟨⟩
    decide
  rw [skipUnsigned, skipDigits_append natural.1 point]
  simp only [natural.alone point, if_false, skipDigits_append given behind, bind, Except.bind]

theorem IsNumber.skipNumber_eq (h : IsNumber s) (behind : Ended rest) :
    skipNumber (s ++ rest) = .ok rest := by
  cases h with
  | @parts sign whole fraction exponent signs natural given power =>
  have unsigned : skipUnsigned (whole ++ (fraction ++ (exponent ++ rest))) = .ok rest := by
    rw [← skipExponent_append power behind]
    cases given with
    | none =>
        refine skipUnsigned_whole natural (power.undigited behind) fun more point => ?_
        cases power with
        | none =>
            have first : rest.head? = some '.' := congrArg List.head? point
            exact (behind '.' first).2.1 rfl
        | power letters _ _ =>
            cases point
            exact absurd letters (by decide)
    | point digits => exact skipUnsigned_point natural digits (power.undigited behind)
  simp only [List.append_assoc]
  rcases signs with rfl | rfl
  · obtain ⟨first, more, rfl, digit⟩ := natural.1.first
    rw [List.nil_append, List.cons_append, skipNumber]
    · exact unsigned
    · rintro _ ⟨⟩
      exact absurd digit (by decide)
  · exact unsigned

/-! ## Steps between brackets -/

theorem Ended.blank_append (blanks : Blank blank) (h : Ended rest) : Ended (blank ++ rest) := by
  cases blank with
  | nil => exact h
  | cons c more =>
      rintro _ ⟨⟩
      have space := blanks c List.mem_cons_self
      simp only [isSpace, Bool.or_eq_true, beq_iff_eq] at space
      rcases space with ((rfl | rfl) | rfl) | rfl
      all_goals decide

theorem Bracket.closing_facts (b : Bracket) :
    isSpace b.closing = false ∧ b.closing ≠ ',' ∧ Ended [b.closing] := by
  cases b
  all_goals
    refine ⟨by decide, by decide, ?_⟩
    rintro _ ⟨⟩
    decide

/-- What is left behind a value inside some brackets, or behind the only one. -/
def resume (steps : Nat) (brackets : List Bracket) (rest : List Char) :
    Except JsonError (List Char) :=
  if brackets.isEmpty then .ok rest else skipWithin steps .commaOrEnd brackets rest

variable {b : Bracket} {outer : List Bracket} {steps : Nat}

theorem skipWithin_opening (blanks : Blank blank) (brackets : List Bracket) (s : List Char) :
    skipWithin (steps + 1) .value brackets (blank ++ b.opening :: s) =
      skipWithin steps .firstOrEnd (b :: brackets) s := by
  have solid : isSpace b.opening = false := by cases b <;> rfl
  rw [skipWithin, skipSpaces_blank blanks, skipSpaces_cons solid]
  cases b
  all_goals rfl

theorem skipWithin_closing (blanks : Blank blank) (expecting : Expecting)
    (behind : expecting ≠ .value) (rest : List Char) :
    skipWithin (steps + 1) expecting (b :: outer) (blank ++ b.closing :: rest) =
      resume steps outer rest := by
  obtain ⟨solid, noComma, -⟩ := b.closing_facts
  cases expecting with
  | value => exact absurd rfl behind
  | firstOrEnd =>
      simp only [skipWithin, skipSpaces_blank blanks, skipSpaces_cons solid, if_true, resume]
  | commaOrEnd =>
      simp only [skipWithin, skipSpaces_blank blanks, skipSpaces_cons solid, noComma, if_false,
        if_true, resume]

theorem skipWithin_comma (blanks : Blank blank) (s : List Char) :
    skipWithin (steps + 1) .commaOrEnd (b :: outer) (blank ++ ',' :: s) =
      (skipToValue b s).bind (skipWithin steps .value (b :: outer)) := by
  have solid : isSpace ',' = false := by decide
  simp only [skipWithin, skipSpaces_blank blanks, skipSpaces_cons solid, if_true]
  rfl

theorem skipWithin_first (first : ∃ c more, skipSpaces s = c :: more ∧ c ≠ b.closing) :
    skipWithin (steps + 1) .firstOrEnd (b :: outer) s =
      (skipToValue b s).bind (skipWithin steps .value (b :: outer)) := by
  obtain ⟨c, more, found, inside⟩ := first
  have again : skipSpaces (c :: more) = c :: more := by rw [← found, skipSpaces_skipSpaces]
  have entered : skipWithin (steps + 1) .firstOrEnd (b :: outer) s =
      (skipToValue b (c :: more)).bind (skipWithin steps .value (b :: outer)) := by
    simp only [skipWithin, found, inside, if_false]
    rfl
  rw [entered]
  cases b with
  | list =>
      cases steps with
      | zero => rfl
      | succ steps => simp only [skipToValue, Except.bind, skipWithin, found, again]
  | object => simp only [skipToValue, skipKey, found, again]

/-! ## Values in brackets -/

/-- A part of a list or an object as a value with what leads to it. -/
inductive Leads (b : Bracket) (value : List Char) : List Char → Prop where
  | upTo {lead after} :
      (∀ {blank}, Blank blank → ∃ inner, Blank inner ∧
        ∀ s, skipToValue b (blank ++ (lead ++ s)) = .ok (inner ++ s)) →
      (∀ s, ∃ c rest, skipSpaces (lead ++ (value ++ s)) = c :: rest ∧ c ≠ b.closing) →
      Blank after → Leads b value (lead ++ (value ++ after))

variable {value part key item : List Char} {values parts : List (List Char)}

theorem colon_blank (blanks : Blank blank) (s : List Char) : colon (blank ++ ':' :: s) = .ok s := by
  have solid : isSpace ':' = false := by decide
  simp only [colon, skipSpaces_blank blanks, skipSpaces_cons solid, if_true]

theorem Item.leads (h : Item Eq value item) (begins : Begins value) : Leads .list value item := by
  obtain ⟨before, rfl, after⟩ := h
  refine .upTo (fun blanks => ⟨_, blanks.append before, fun s => ?_⟩) (fun s => ?_) after
  · rw [skipToValue, List.append_assoc]
  · obtain ⟨c, more, same, -, inside⟩ := id begins
    rw [begins.skipSpaces_eq before, same]
    exact ⟨c, _, rfl, inside⟩

theorem Member.leads (h : Member Eq Eq (key, value) part) (quoted : IsQuoted key) :
    Leads .object value part := by
  obtain ⟨parts, each, rfl⟩ := quoted
  cases h with
  | @keyed _ _ front _ gap _ outside same between item =>
  cases item with
  | @padded before _ after inside same' behind =>
  subst same same'
  have solid : isSpace '"' = false := by decide
  have lead (s : List Char) :
      front ++ '"' :: (parts.flatten ++ '"' :: (gap ++ ':' :: before)) ++ s =
        front ++ '"' :: (parts.flatten ++ '"' :: (gap ++ ':' :: (before ++ s))) := by
    simp
  have whole : front ++ ('"' :: (parts.flatten ++ ['"']) ++
        (gap ++ ':' :: (before ++ (value ++ after)))) =
      front ++ '"' :: (parts.flatten ++ '"' :: (gap ++ ':' :: before)) ++ (value ++ after) := by
    simp
  rw [whole]
  refine .upTo (fun blanks => ⟨before, inside, fun s => ?_⟩) (fun s => ?_) behind
  · simp only [lead, skipToValue, skipKey, skipSpaces_blank blanks, skipSpaces_blank outside,
      skipSpaces_cons solid, if_true, skipQuoted_flatten each, bind, Except.bind,
      colon_blank between]
  · rw [lead, skipSpaces_blank outside, skipSpaces_cons solid]
    exact ⟨'"', _, rfl, by decide⟩

theorem ended_separated (parts : List (List Char)) (b : Bracket) (rest : List Char) :
    Ended (separated false parts ++ b.closing :: rest) := by
  cases parts with
  | nil =>
      obtain ⟨-, -, ended⟩ := b.closing_facts
      exact ended
  | cons part parts =>
      rintro _ ⟨⟩
      decide

/-- Whether a value is looked through, in a number of steps that its length bounds. -/
def Skipped (s : List Char) : Prop :=
  ∃ used, used ≤ 2 * s.length ∧ ∀ {blank rest}, Blank blank → Ended rest → ∀ steps brackets,
    skipWithin (used + steps) .value brackets (blank ++ (s ++ rest)) = resume steps brackets rest

/-- What is expected between brackets. -/
def Expecting.between : (first : Bool) → Expecting
  | true => .firstOrEnd
  | false => .commaOrEnd

/-- The parts between two brackets, or behind some other parts, are looked through one by one. -/
theorem skipWithin_separated (leads : List.Forall₂ (Leads b) values parts)
    (each : ∀ value ∈ values, Skipped value) (first : Bool) :
    ∃ used, used ≤ 2 * (separated first parts).length + 1 + first.toNat ∧
      ∀ {blank}, Blank blank → ∀ rest steps outer,
        skipWithin (used + steps) (.between first) (b :: outer)
          (blank ++ (separated first parts ++ b.closing :: rest)) =
        resume steps outer rest := by
  -- Each value goes on where the one before it stopped, so the steps that are left are any number.
  induction leads generalizing first with
  | nil =>
      refine ⟨1, by omega, fun blanks rest steps outer => ?_⟩
      have behind : Expecting.between first ≠ .value := by cases first <;> exact nofun
      rw [Nat.add_comm, separated, List.nil_append]
      exact skipWithin_closing blanks _ behind rest
  | @cons value part values parts leads _ ih =>
      cases leads with
      | @upTo lead trail leading opens after =>
      obtain ⟨here, later⟩ := List.forall_mem_cons.mp each
      obtain ⟨used, bound, skips⟩ := here
      obtain ⟨more, bounds, continues⟩ := ih later false
      refine ⟨used + more + 1, ?_, fun {blank} blanks rest steps outer => ?_⟩
      · cases first
        all_goals
          simp only [separated, separator, List.length_append, List.length_cons, List.length_nil,
            Bool.toNat_true, Bool.toNat_false] at *
          omega
      · have total : used + more + 1 + steps = used + (more + steps) + 1 := by omega
        have behind := ended_separated parts b rest
        have inside {blank : List Char} (blanks : Blank blank) :
            (skipToValue b (blank ++ (lead ++ (value ++ (trail ++ (separated false parts ++
              b.closing :: rest)))))).bind (skipWithin (used + (more + steps)) .value (b :: outer)) =
            resume steps outer rest := by
          obtain ⟨inner, blanks, entered⟩ := leading blanks
          rw [entered, Except.bind, skips blanks (Ended.blank_append after behind)]
          exact continues after rest steps outer
        rw [total]
        cases first with
        | false =>
            simp only [separated, separator, Expecting.between, List.cons_append, List.nil_append,
              List.append_assoc]
            rw [skipWithin_comma blanks]
            exact inside .nil
        | true =>
            simp only [separated, separator, Expecting.between, List.nil_append, List.append_assoc]
            rw [skipWithin_first (by rw [skipSpaces_blank blanks]; exact opens _)]
            exact inside blanks

theorem Encloses.skipped (h : Encloses b parts s) (leads : List.Forall₂ (Leads b) values parts)
    (each : ∀ value ∈ values, Skipped value) : Skipped s := by
  obtain ⟨blank, blanks, rfl⟩ := h
  obtain ⟨used, bound, skips⟩ := skipWithin_separated leads each true
  refine ⟨used + 1, ?_, fun before _ steps brackets => ?_⟩
  · simp only [List.length_append, List.length_cons, Bool.toNat_true] at *
    omega
  · rw [List.cons_append, Nat.add_right_comm, skipWithin_opening before, List.append_assoc,
      List.append_assoc]
    exact skips blanks _ _ _

theorem skipScalar_number (h : IsNumber s) (behind : Ended rest) :
    skipScalar (s ++ rest) = .ok rest := by
  have skipped := h.skipNumber_eq behind
  obtain ⟨c, more, rfl, first⟩ := h.first
  have other {d : Char} := not_of_number_first (d := d) first
  rw [List.cons_append, skipScalar, if_neg (other (by decide) (by decide)),
    if_neg (other (by decide) (by decide)), if_neg (other (by decide) (by decide)),
    if_neg (other (by decide) (by decide)), if_pos first]
  exact skipped

theorem skipScalar_text (h : IsQuoted s) (rest : List Char) : skipScalar (s ++ rest) = .ok rest := by
  obtain ⟨parts, each, rfl⟩ := h
  rw [List.cons_append, List.append_assoc, List.singleton_append]
  exact skipQuoted_flatten each rest

/-- A value without brackets takes one step. -/
theorem skipped_scalar (begins : Begins s) (noList : s.head? ≠ some '[')
    (noObject : s.head? ≠ some '\x7b')
    (scalar : ∀ {rest}, Ended rest → skipScalar (s ++ rest) = .ok rest) : Skipped s := by
  obtain ⟨c, more, rfl, -⟩ := id begins
  refine ⟨1, by simp only [List.length_cons]; omega, fun {_ rest} blanks behind steps brackets => ?_⟩
  have found := begins.skipSpaces_eq blanks rest
  have skipped := scalar behind
  have list : ∀ s, c :: (more ++ rest) = '[' :: s → False := by
    rintro _ ⟨⟩
    exact noList rfl
  have object : ∀ s, c :: (more ++ rest) = '\x7b' :: s → False := by
    rintro _ ⟨⟩
    exact noObject rfl
  rw [List.cons_append] at found skipped
  simp only [Nat.add_comm 1, skipWithin, List.cons_append, found, skipped]
  cases brackets
  all_goals rfl

theorem IsValue.skipped (h : IsValue s) : Skipped s := by
  induction h with
  | null => exact skipped_scalar IsValue.null.begins nofun nofun fun _ => rfl
  | boolean written =>
      have begins := written.begins
      cases written
      all_goals exact skipped_scalar begins nofun nofun fun _ => rfl
  | number written =>
      refine skipped_scalar written.begins ?_ ?_ (skipScalar_number written)
      all_goals
        obtain ⟨c, more, rfl, first⟩ := written.first
        rw [List.head?_cons, Ne, Option.some_inj]
        exact not_of_number_first first (by decide) (by decide)
  | text written =>
      refine skipped_scalar written.begins ?_ ?_ fun _ => skipScalar_text written _
      all_goals
        obtain ⟨parts, -, rfl⟩ := written
        exact nofun
  | list values written skipped =>
      obtain ⟨items, parts, encloses⟩ := written
      have leads : List.Forall₂ (Leads .list) _ items :=
        ((List.forall₂_and_left _ _).mpr ⟨values, parts⟩).imp fun _ _ h => h.2.leads h.1.begins
      exact encloses.skipped leads skipped
  | @object members _ keys values written skipped =>
      obtain ⟨texts, parts, encloses⟩ := written
      have leads : List.Forall₂ (Leads .object) (members.map Prod.snd) texts :=
        List.forall₂_map_left_iff.mpr <|
          ((List.forall₂_and_left _ _).mpr ⟨keys, parts⟩).imp fun _ _ h => h.2.leads h.1
      exact encloses.skipped leads (List.forall_mem_map.mpr skipped)

/-- However deep a value is nested, it is looked through. -/
theorem IsValue.skipValue_eq (h : IsValue s) (blanks : Blank blank) (behind : Ended rest) :
    skipValue (blank ++ (s ++ rest)) = .ok rest := by
  obtain ⟨used, bound, skips⟩ := h.skipped
  have room : 2 * (blank ++ (s ++ rest)).length + 2 =
      used + (2 * (blank ++ (s ++ rest)).length + 2 - used) := by
    simp only [List.length_append]
    omega
  rw [skipValue, room, skips blanks behind]
  rfl

end ParameterHints.Json
