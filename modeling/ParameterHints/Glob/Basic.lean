import ParameterHints.Glob.ByteRegex
import ParameterHints.Glob.Token

/-! # Globs

A glob matches a whole name, byte by byte of its UTF-8 encoding. Nothing in a name is special: a
wildcard also covers dots, slashes and line ends.
-/

namespace ParameterHints

namespace Glob

def bytesOf (c : Char) : List UInt8 := String.utf8EncodeChar c

/-- The byte ranges of one range of a class. The bytes of the first character but its last, and
    the bytes of the last character but its first, are members of their own; the range runs
    between the two bytes that are left. -/
def rangeBytes (first last : Char) : List (UInt8 × UInt8) :=
  if first = last then (bytesOf first).map fun b => (b, b)
  else
    ((bytesOf first).dropLast.map fun b => (b, b)) ++
      (((bytesOf first).getLast?.getD 0), ((bytesOf last).head?.getD 0)) ::
        ((bytesOf last).tail.map fun b => (b, b))

def CharClass.bytes (cls : CharClass) : ByteSet :=
  ⟨cls.negated, cls.ranges.flatMap fun (first, last) => rangeBytes first last⟩

def slash : ByteRegex := .byte (.single 0x2F)

/-- The expression for either of two that may be missing. -/
def either : Option ByteRegex → Option ByteRegex → Option ByteRegex
  | some first, some second => some (.alt first second)
  | some first, none => some first
  | none, second => second

/-- The expression for one after another of two that may be missing. -/
def inOrder : Option ByteRegex → Option ByteRegex → Option ByteRegex
  | some first, some second => some (.seq first second)
  | some first, none => some first
  | none, second => second

mutual

/-- The expression of a token, if it asks for anything: a group all of whose branches are blank
    asks for nothing. -/
def Token.regex? : Token → Option ByteRegex
  | .literal c => some (.ofBytes (bytesOf c))
  | .any => some (.byte .all)
  | .zeroOrMore => some .anything
  | .recursivePrefix => some (.alt (.alt .empty slash) (.seq .anything slash))
  | .recursiveSuffix => some (.seq slash .anything)
  | .recursiveZeroOrMore => some (.alt slash (.seq slash (.seq .anything slash)))
  | .charClass cls => some (.byte cls.bytes)
  | .alternates branches => branchesRegex? branches

/-- The expression of tokens in order, if they ask for anything. -/
def sequenceRegex? : List Token → Option ByteRegex
  | [] => none
  | token :: rest => inOrder token.regex? (sequenceRegex? rest)

/-- The expression of the branches that ask for something, if there are any. A blank branch is
    no alternative at all. -/
def branchesRegex? : List (List Token) → Option ByteRegex
  | [] => none
  | branch :: rest => either (sequenceRegex? branch) (branchesRegex? rest)

end

/-- The expression of a whole glob. Two stars that are the whole glob match everything. -/
def regexOf : List Token → ByteRegex
  | [.recursivePrefix] => .anything
  | tokens => (sequenceRegex? tokens).getD .empty

end Glob

structure Glob where
  regex : ByteRegex

namespace Glob

def parse (glob : List Char) : Except Fault Glob := do
  return ⟨regexOf (← tokens glob)⟩

def isMatch (g : Glob) (name : List Char) : Bool := g.regex.isMatch (name.flatMap bytesOf)

end Glob

end ParameterHints
