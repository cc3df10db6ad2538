import Mathlib.Data.Char
import Mathlib.Data.List.Forall2
import Mathlib.Tactic.IntervalCases
import ParameterHints.Json.Printer
import ParameterHints.Json.Ignored
import ParameterHints.Proofs.Text.ByteOrder

/-! # Quoted texts

Between quotes a character stands for itself, or it is named behind a backslash: by a letter, or by
the hexadecimal digits of its UTF-16 code units. However a text is quoted, it is read as its
characters, and the way in which it is written is one of these. Of a text that is not kept only the
form is looked at, which says nothing about pairs of surrogates.
-/

namespace ParameterHints.Json

/-- The letters that may stand behind a backslash, each with its meaning. -/
def escapeLetters : List (Char × Char) :=
  [('"', '"'), ('\\', '\\'), ('/', '/'), ('b', '\x08'), ('f', '\x0c'), ('n', '\n'), ('r', '\r'),
    ('t', '\t')]

/-- A digit below 16, for which a letter may be small or large. -/
def IsHexDigit (n : Nat) (c : Char) : Prop :=
  n < 16 ∧ (c = n.digitChar ∨ c = n.digitChar.toUpper)

/-- The escape of a number of 16 bits. -/
inductive EscapesUnit : Nat → List Char → Prop where
  | digits {i j k l a b c d} : IsHexDigit i a → IsHexDigit j b → IsHexDigit k c → IsHexDigit l d →
      EscapesUnit (((i * 16 + j) * 16 + k) * 16 + l) ['\\', 'u', a, b, c, d]

/-- A character that may stand for itself. -/
def Unescaped (c : Char) : Prop := c ≠ '"' ∧ c ≠ '\\' ∧ ' ' ≤ c

/-- The ways to write a character between quotes. -/
inductive Quotes : Char → List Char → Prop where
  | plain {c} : Unescaped c → Quotes c [c]
  | letter {letter c} : (letter, c) ∈ escapeLetters → Quotes c ['\\', letter]
  | unit {c escape} : EscapesUnit c.toNat escape → Quotes c escape
  | pair {c high low} : 0x10000 ≤ c.toNat →
      EscapesUnit (0xD800 + (c.toNat - 0x10000) / 0x400) high →
      EscapesUnit (0xDC00 + (c.toNat - 0x10000) % 0x400) low → Quotes c (high ++ low)

/-- The ways to write a text. -/
def IsText (value : String) (s : List Char) : Prop :=
  ∃ parts : List (List Char),
    List.Forall₂ Quotes value.toList parts ∧ s = '"' :: (parts.flatten ++ ['"'])

/-- What may stand between quotes, whatever it means. -/
inductive InQuotes : List Char → Prop where
  | plain {c} : Unescaped c → InQuotes [c]
  | letter {letter c} : (letter, c) ∈ escapeLetters → InQuotes ['\\', letter]
  | unit {n escape} : EscapesUnit n escape → InQuotes escape

/-- Something between quotes. -/
def IsQuoted (s : List Char) : Prop :=
  ∃ parts : List (List Char), (∀ part ∈ parts, InQuotes part) ∧ s = '"' :: (parts.flatten ++ ['"'])

variable {n : Nat} {c : Char} {part s escape : List Char}

/-! ## Escapes -/

theorem IsHexDigit.hexDigit?_eq (h : IsHexDigit n c) : hexDigit? c = some n := by
  obtain ⟨small, rfl | rfl⟩ := h
  all_goals interval_cases n <;> rfl

theorem EscapesUnit.hex4? (h : EscapesUnit n escape) :
    ∃ a b c d, escape = ['\\', 'u', a, b, c, d] ∧ Json.hex4? a b c d = some n := by
  cases h with
  | @digits _ _ _ _ a b c d ha hb hc hd =>
      refine ⟨a, b, c, d, rfl, ?_⟩
      simp [Json.hex4?, ha.hexDigit?_eq, hb.hexDigit?_eq, hc.hexDigit?_eq, hd.hexDigit?_eq]

theorem not_surrogate_toNat (c : Char) :
    isHighSurrogate c.toNat = false ∧ isLowSurrogate c.toNat = false := by
  have valid := c.valid
  simp only [UInt32.isValidChar, Nat.isValidChar] at valid
  simp only [isHighSurrogate, isLowSurrogate, Char.toNat, Bool.and_eq_false_iff,
    decide_eq_false_iff_not]
  omega

theorem ofSurrogates_eq (large : 0x10000 ≤ c.toNat) :
    ofSurrogates (0xD800 + (c.toNat - 0x10000) / 0x400) (0xDC00 + (c.toNat - 0x10000) % 0x400) =
      c := by
  have same : (0xD800 + (c.toNat - 0x10000) / 0x400 - 0xD800) * 0x400 +
      (0xDC00 + (c.toNat - 0x10000) % 0x400 - 0xDC00) + 0x10000 = c.toNat := by
    omega
  rw [ofSurrogates, same, Char.ofNat_toNat]

theorem surrogates_toNat (large : 0x10000 ≤ c.toNat) :
    isHighSurrogate (0xD800 + (c.toNat - 0x10000) / 0x400) = true ∧
      isLowSurrogate (0xDC00 + (c.toNat - 0x10000) % 0x400) = true := by
  have bound : c.toNat < 0x110000 := Text.toNat_lt c
  simp only [isHighSurrogate, isLowSurrogate, Bool.and_eq_true, decide_eq_true_eq]
  omega

theorem simpleEscape?_eq {letter : Char} (listed : (letter, c) ∈ escapeLetters) :
    letter ≠ 'u' ∧ simpleEscape? letter = some c := by
  simp only [escapeLetters, List.mem_cons, Prod.mk.injEq, List.not_mem_nil, or_false] at listed
  rcases listed with h | h | h | h | h | h | h | h
  all_goals
    obtain ⟨rfl, rfl⟩ := h
    exact ⟨by decide, rfl⟩

/-! ## Reading -/

/-- A character in front of what is read. -/
def withFirst (c : Char) : List Char × List Char → List Char × List Char
  | (chars, rest) => (c :: chars, rest)

theorem Unescaped.quotedRest_eq (h : Unescaped c) (s : List Char) :
    quotedRest (c :: s) = (quotedRest s).map (withFirst c) := by
  obtain ⟨noQuote, noBackslash, printable⟩ := h
  rw [quotedRest]
  · rw [if_neg (not_lt_of_ge printable)]
    cases quotedRest s <;> rfl
  · exact noQuote
  · exact noBackslash

theorem quotedRest_letter {letter : Char} (listed : (letter, c) ∈ escapeLetters) (s : List Char) :
    quotedRest ('\\' :: letter :: s) = (quotedRest s).map (withFirst c) := by
  obtain ⟨named, means⟩ := simpleEscape?_eq listed
  rw [quotedRest]
  · simp only [means]
    cases quotedRest s <;> rfl
  · exact fun _ _ _ _ _ same => absurd same named
  · exact named

theorem quotedRest_unit (escapes : EscapesUnit c.toNat escape) (s : List Char) :
    quotedRest (escape ++ s) = (quotedRest s).map (withFirst c) := by
  obtain ⟨a, b, d, e, rfl, digits⟩ := escapes.hex4?
  obtain ⟨high, low⟩ := not_surrogate_toNat c
  simp only [List.cons_append, List.nil_append, quotedRest, digits, high, low, Char.ofNat_toNat]
  cases quotedRest s <;> rfl

theorem quotedRest_pair {upper lower : Nat} {first second : List Char}
    (high : EscapesUnit upper first) (isHigh : isHighSurrogate upper = true)
    (low : EscapesUnit lower second) (isLow : isLowSurrogate lower = true) (s : List Char) :
    quotedRest (first ++ second ++ s) =
      (quotedRest s).map (withFirst (ofSurrogates upper lower)) := by
  obtain ⟨a, b, d, e, rfl, before⟩ := high.hex4?
  obtain ⟨f, g, h, i, rfl, behind⟩ := low.hex4?
  have alone : isLowSurrogate upper = false := by
    simp only [isHighSurrogate, isLowSurrogate, Bool.and_eq_true, Bool.and_eq_false_iff,
      decide_eq_true_eq, decide_eq_false_iff_not] at isHigh ⊢
    omega
  simp only [List.cons_append, List.nil_append, quotedRest, before, behind, alone, isHigh,
    Option.filter_some, isLow]
  cases quotedRest s <;> rfl

/-- However a character is written, it is the next that is read. -/
theorem Quotes.quotedRest_eq (h : Quotes c part) (s : List Char) :
    quotedRest (part ++ s) = (quotedRest s).map (withFirst c) := by
  cases h with
  | plain unescaped => exact unescaped.quotedRest_eq s
  | letter listed => exact quotedRest_letter listed s
  | unit escapes => exact quotedRest_unit escapes s
  | pair large high low =>
      obtain ⟨isHigh, isLow⟩ := surrogates_toNat large
      rw [quotedRest_pair high isHigh low isLow, ofSurrogates_eq large]

theorem quotedRest_flatten {chars : List Char} {parts : List (List Char)}
    (quoted : List.Forall₂ Quotes chars parts) (rest : List Char) :
    quotedRest (parts.flatten ++ '"' :: rest) = .ok (chars, rest) := by
  induction quoted with
  | nil => rw [List.flatten_nil, List.nil_append, quotedRest]
  | cons first _ ih =>
      rw [List.flatten_cons, List.append_assoc, first.quotedRest_eq, ih]
      rfl

/-! ## Looking through -/

theorem skipQuoted_part (h : InQuotes part) (s : List Char) :
    skipQuoted (part ++ s) = skipQuoted s := by
  cases h with
  | plain unescaped =>
      obtain ⟨noQuote, noBackslash, printable⟩ := unescaped
      rw [List.singleton_append, skipQuoted]
      · rw [if_neg (not_lt_of_ge printable)]
      · exact noQuote
      · exact noBackslash
  | letter listed =>
      obtain ⟨named, means⟩ := simpleEscape?_eq listed
      rw [List.cons_append, List.singleton_append, skipQuoted]
      · rw [means, Option.isSome_some, if_pos rfl]
      · exact fun _ _ _ _ _ same => absurd same named
      · exact named
  | unit escapes =>
      obtain ⟨a, b, d, e, rfl, digits⟩ := escapes.hex4?
      simp [skipQuoted, digits]

theorem skipQuoted_flatten {parts : List (List Char)} (quoted : ∀ part ∈ parts, InQuotes part)
    (rest : List Char) : skipQuoted (parts.flatten ++ '"' :: rest) = .ok rest := by
  induction parts with
  | nil => rw [List.flatten_nil, List.nil_append, skipQuoted]
  | cons part parts ih =>
      obtain ⟨first, others⟩ := List.forall_mem_cons.mp quoted
      rw [List.flatten_cons, List.append_assoc, skipQuoted_part first, ih others]

/-! ## Writing -/

/-- The way in which a character is written is one of its quotations. -/
theorem quotes_escaped (c : Char) : Quotes c (escaped c) := by
  rw [escaped]
  split_ifs with quote backslash backspace feed newline ret tab control
  · exact .letter (by simp [quote, escapeLetters])
  · exact .letter (by simp [backslash, escapeLetters])
  · exact .letter (by simp [backspace, escapeLetters])
  · exact .letter (by simp [feed, escapeLetters])
  · exact .letter (by simp [newline, escapeLetters])
  · exact .letter (by simp [ret, escapeLetters])
  · exact .letter (by simp [tab, escapeLetters])
  · have small : c.toNat < 32 := control
    have zero : IsHexDigit 0 '0' := ⟨by decide, .inl rfl⟩
    have upper : IsHexDigit (c.toNat / 16) (c.toNat / 16).digitChar := ⟨by omega, .inl rfl⟩
    have lower : IsHexDigit (c.toNat % 16) (c.toNat % 16).digitChar := ⟨by omega, .inl rfl⟩
    have code : ((0 * 16 + 0) * 16 + c.toNat / 16) * 16 + c.toNat % 16 = c.toNat := by omega
    have escapes := EscapesUnit.digits zero zero upper lower
    rw [code] at escapes
    exact .unit escapes
  · exact .plain ⟨quote, backslash, le_of_not_gt control⟩

theorem isText_writeText (s : String) : IsText s (writeText s.toList) := by
  refine ⟨s.toList.map escaped, ?_, ?_⟩
  · exact List.forall₂_map_right_iff.2 (List.forall₂_same.2 fun c _ => quotes_escaped c)
  · rw [writeText, List.flatMap_def]
    rfl

end ParameterHints.Json
