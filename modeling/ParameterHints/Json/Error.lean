import ParameterHints.Decimal.Shortest
import ParameterHints.Text.Quoted

/-! # Errors in JSON texts

A text may end too early, may not be JSON, or may hold something else than what is asked for.
Whatever comes first in the text is reported.
-/

namespace ParameterHints

/-- A number as it is written: a whole one that fits into 64 bits, or a binary fraction. -/
inductive Numeral where
  | integer (n : Int)
  | fraction (negative : Bool) (magnitude : Binary64)
  deriving DecidableEq

/-- What was found where something else was expected. -/
inductive JsonFound where
  | null
  | boolean (b : Bool)
  | number (n : Numeral)
  | text (s : List Char)
  | list
  | object
  /-- A name that stands for a variant without content. -/
  | bareVariant
  deriving DecidableEq

namespace JsonFound

/-- Fractions have an exponent below `10 ^ -5` and from `10 ^ 16` on, always with its sign. -/
def fractionLayout : Decimal.Layout := ⟨-5, 15, true⟩

def describe : JsonFound → String
  | null => "null"
  | boolean b => "boolean `" ++ (if b then "true" else "false") ++ "`"
  | number (.integer n) => "integer `" ++ toString n ++ "`"
  | number (.fraction negative x) =>
      "floating point `" ++ String.ofList (Decimal.text fractionLayout negative x) ++ "`"
  | text s => "string " ++ String.ofList (Text.quoted s)
  | list => "sequence"
  | object => "map"
  | bareVariant => "the name of a variant alone"

end JsonFound

/-- What was being read when the text ended. -/
inductive JsonEnding where
  | value
  | object
  | list
  | text
  deriving DecidableEq

inductive JsonFault where
  | expectedValue
  /-- A misspelt `true`, `false` or `null`. -/
  | misspelt
  | keyNotText
  | expectedColon
  | expectedCommaOrBrace
  | expectedCommaOrBracket
  | trailingComma
  | trailingCharacters
  | invalidNumber
  | numberTooLarge
  | invalidEscape
  /-- The first half of a surrogate pair without an escape behind it. -/
  | unfinishedPair
  /-- A half of a surrogate pair out of place. -/
  | loneSurrogate
  | controlCharacter
  deriving DecidableEq

inductive JsonError where
  /-- It ends too early. -/
  | ended (inside : JsonEnding)
  /-- It is not JSON. -/
  | malformed (fault : JsonFault)
  /-- A value is of the wrong type. -/
  | wrongType (found : JsonFound) (expected : String)
  /-- A number is not in the range asked for. -/
  | outOfRange (found : Numeral) (expected : String)
  /-- A list ends before all fields of a record have been read from it. -/
  | tooShort (length : Nat) (expected : String)
  | duplicateField (name : String)
  | missingField (name : String)
  | unknownVariant (name : String)
  deriving DecidableEq

inductive JsonCategory where
  | ending
  | syntactic
  | content
  deriving DecidableEq

namespace JsonFault

def message : JsonFault → String
  | expectedValue => "expected value"
  | misspelt => "expected ident"
  | keyNotText => "key must be a string"
  | expectedColon => "expected `:`"
  | expectedCommaOrBrace => "expected `,` or `\x7d`"
  | expectedCommaOrBracket => "expected `,` or `]`"
  | trailingComma => "trailing comma"
  | trailingCharacters => "trailing characters"
  | invalidNumber => "invalid number"
  | numberTooLarge => "number out of range"
  | invalidEscape => "invalid escape"
  | unfinishedPair => "unexpected end of hex escape"
  | loneSurrogate => "lone leading surrogate in hex escape"
  | controlCharacter =>
      "control character (\\u0000-\\u001F) found while parsing a string"

end JsonFault

namespace JsonError

def category : JsonError → JsonCategory
  | ended _ => .ending
  | malformed _ => .syntactic
  | _ => .content

def message : JsonError → String
  | ended .value => "EOF while parsing a value"
  | ended .object => "EOF while parsing an object"
  | ended .list => "EOF while parsing a list"
  | ended .text => "EOF while parsing a string"
  | malformed fault => fault.message
  | wrongType found expected => "invalid type: " ++ found.describe ++ ", expected " ++ expected
  | outOfRange found expected =>
      "invalid value: " ++ (JsonFound.number found).describe ++ ", expected " ++ expected
  | tooShort length expected => "invalid length " ++ toString length ++ ", expected " ++ expected
  | duplicateField name => "duplicate field `" ++ name ++ "`"
  | missingField name => "missing field `" ++ name ++ "`"
  | unknownVariant name => "unknown variant `" ++ name ++ "`"

end JsonError

end ParameterHints
