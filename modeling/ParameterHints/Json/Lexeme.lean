import ParameterHints.Json.Error
import ParameterHints.Text.Slice

/-! # The words and texts of JSON

Blanks, the words `true`, `false` and `null`, and texts between quotes. In an escape, a character
above U+FFFF is written as a pair of surrogates; neither half may stand alone.
-/

namespace ParameterHints.Json

/-- Reads something from the beginning of a text; the answer holds what is left behind it. -/
abbrev Reader (α : Type) := List Char → Except JsonError (α × List Char)

/-- Whether a character may stand between any two lexemes. -/
def isSpace (c : Char) : Bool := c == ' ' || c == '\t' || c == '\n' || c == '\r'

/-- A text from its first character that is no space. -/
def skipSpaces (s : List Char) : List Char := s.dropWhile isSpace

def word : List Char → List Char → Except JsonError (List Char)
  | [], s => .ok s
  | _ :: _, [] => .error (.ended .value)
  | letter :: letters, c :: s =>
      if c = letter then word letters s else .error (.malformed .misspelt)

def hexDigit? (c : Char) : Option Nat :=
  if '0' ≤ c ∧ c ≤ '9' then some (c.toNat - 48)
  else if 'a' ≤ c ∧ c ≤ 'f' then some (c.toNat - 87)
  else if 'A' ≤ c ∧ c ≤ 'F' then some (c.toNat - 55)
  else none

def hex4? (a b c d : Char) : Option Nat := do
  return (((← hexDigit? a) * 16 + (← hexDigit? b)) * 16 + (← hexDigit? c)) * 16 + (← hexDigit? d)

/-- The error for a text that does not begin with four hexadecimal digits: it ends too early if it
    has less than four bytes. -/
def badHex (s : List Char) : JsonError :=
  if Text.byteLength s < 4 then .ended .text else .malformed .invalidEscape

/-- The character that a letter behind a backslash means. -/
def simpleEscape? (c : Char) : Option Char :=
  if c = '"' ∨ c = '\\' ∨ c = '/' then some c
  else if c = 'b' then some '\x08'
  else if c = 'f' then some '\x0c'
  else if c = 'n' then some '\n'
  else if c = 'r' then some '\r'
  else if c = 't' then some '\t'
  else none

/-- Whether a number is the first half of a surrogate pair. -/
def isHighSurrogate (n : Nat) : Bool := 0xD800 ≤ n && n ≤ 0xDBFF

/-- Whether a number is the second half of a surrogate pair. -/
def isLowSurrogate (n : Nat) : Bool := 0xDC00 ≤ n && n ≤ 0xDFFF

def ofSurrogates (high low : Nat) : Char :=
  Char.ofNat ((high - 0xD800) * 0x400 + (low - 0xDC00) + 0x10000)

/-- The error for the first half of a surrogate pair, given what stands behind its escape, which
    is not the escape of a second half. -/
def badPair : List Char → JsonError
  | [] | ['\\'] => .ended .text
  | '\\' :: 'u' :: a :: b :: c :: d :: s =>
      match hex4? a b c d with
      | some _ => .malformed .loneSurrogate
      | none => badHex (a :: b :: c :: d :: s)
  | '\\' :: 'u' :: s => badHex s
  | _ => .malformed .unfinishedPair

/-- A text behind its opening quote, and what is left behind its closing quote. -/
def quotedRest : Reader (List Char)
  | [] => .error (.ended .text)
  | '"' :: s => .ok ([], s)
  | '\\' :: s =>
      match s with
      | [] => .error (.ended .text)
      | 'u' :: a :: b :: c :: d :: s =>
          match hex4? a b c d with
          | none => .error (badHex (a :: b :: c :: d :: s))
          | some n =>
              if isLowSurrogate n then .error (.malformed .loneSurrogate)
              else if isHighSurrogate n then
                match s with
                | '\\' :: 'u' :: e :: f :: g :: h :: t =>
                    match (hex4? e f g h).filter isLowSurrogate with
                    | some low => do
                        let (chars, rest) ← quotedRest t
                        return (ofSurrogates n low :: chars, rest)
                    | none => .error (badPair s)
                | _ => .error (badPair s)
              else do
                let (chars, rest) ← quotedRest s
                return (Char.ofNat n :: chars, rest)
      | 'u' :: s => .error (badHex s)
      | letter :: s =>
          match simpleEscape? letter with
          | some c => do
              let (chars, rest) ← quotedRest s
              return (c :: chars, rest)
          | none => .error (.malformed .invalidEscape)
  | c :: s =>
      if c < ' ' then .error (.malformed .controlCharacter)
      else do
        let (chars, rest) ← quotedRest s
        return (c :: chars, rest)

/-- What is left behind the closing quote of a text that is not kept. Escapes are looked at one by
    one, so surrogates need not be paired. -/
def skipQuoted : List Char → Except JsonError (List Char)
  | [] => .error (.ended .text)
  | '"' :: s => .ok s
  | '\\' :: s =>
      match s with
      | [] => .error (.ended .text)
      | 'u' :: a :: b :: c :: d :: s =>
          if (hex4? a b c d).isSome then skipQuoted s
          else .error (badHex (a :: b :: c :: d :: s))
      | 'u' :: s => .error (badHex s)
      | letter :: s =>
          if (simpleEscape? letter).isSome then skipQuoted s
          else .error (.malformed .invalidEscape)
  | c :: s => if c < ' ' then .error (.malformed .controlCharacter) else skipQuoted s

end ParameterHints.Json
