import ParameterHints.Text.Printable

/-! # Quoted texts

A text between double quotes in which every character can be told apart: a quote, a backslash and
the usual line controls have short escapes, and a character that is not printable is written by
its number.
-/

namespace ParameterHints.Text

def quotedChar (c : Char) : List Char :=
  if c = '\x00' then ['\\', '0']
  else if c = '\t' then ['\\', 't']
  else if c = '\r' then ['\\', 'r']
  else if c = '\n' then ['\\', 'n']
  else if c = '"' then ['\\', '"']
  else if c = '\\' then ['\\', '\\']
  else if isPrintable c then [c]
  else ['\\', 'u', '\x7b'] ++ Nat.toDigits 16 c.toNat ++ ['\x7d']

def quoted (text : List Char) : List Char := '"' :: text.flatMap quotedChar ++ ['"']

end ParameterHints.Text
