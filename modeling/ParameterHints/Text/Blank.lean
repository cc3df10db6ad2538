/-! # Blank characters

The blanks are the characters with the Unicode property White_Space. Neither the zero-width space
nor the byte order mark nor the separators below U+0020 other than U+0009 to U+000D have it.
-/

namespace ParameterHints.Text

/-- Whether a character has the property White_Space. -/
def isBlank (c : Char) : Bool :=
  let n := c.toNat
  (0x9 ≤ n && n ≤ 0xD) || n == 0x20 || n == 0x85 || n == 0xA0 || n == 0x1680 ||
    (0x2000 ≤ n && n ≤ 0x200A) || n == 0x2028 || n == 0x2029 || n == 0x202F || n == 0x205F ||
    n == 0x3000

def trimEnd : List Char → List Char
  | [] => []
  | c :: rest =>
      match trimEnd rest with
      | [] => if isBlank c then [] else [c]
      | kept => c :: kept

def trim (text : List Char) : List Char := trimEnd (text.dropWhile isBlank)

end ParameterHints.Text
