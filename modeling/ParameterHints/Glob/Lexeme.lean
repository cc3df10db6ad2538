/-! # Lexemes of a glob

The first reading of a glob: escapes and character classes are put together, and every other
character stands alone. A text that cannot be read on ends in a `fault`, so that whatever is wrong
before that place is still found first.
-/

namespace ParameterHints.Glob

inductive Fault where
  /-- A character class without its closing bracket. -/
  | unclosedClass
  /-- A range in a class whose end comes before its start. -/
  | invalidRange (first last : Char)
  /-- A closing brace without a group to close. -/
  | unopenedGroup
  /-- A group without its closing brace. -/
  | unclosedGroup
  /-- A backslash at the end. -/
  | danglingEscape
  deriving DecidableEq

namespace Fault

def message : Fault → String
  | unclosedClass => "unclosed character class; missing ']'"
  | invalidRange first last => s!"invalid range; '{first}' > '{last}'"
  | unopenedGroup =>
      "unopened alternate group; missing '\x7b' (maybe escape '\x7d' with '[\x7d]'?)"
  | unclosedGroup =>
      "unclosed alternate group; missing '\x7d' (maybe escape '\x7b' with '[\x7b]'?)"
  | danglingEscape => "dangling '\\'"

end Fault

/-- A character class: ranges in the order in which they were written, a single character being
    the range from itself to itself. -/
structure CharClass where
  negated : Bool
  ranges : List (Char × Char)
  deriving DecidableEq

/-- A unit of a glob. -/
inductive Lexeme where
  /-- A character that is neither escaped nor part of a class; it may have a special meaning. -/
  | bare (c : Char)
  /-- A character behind a backslash, which means itself. -/
  | escaped (c : Char)
  /-- A whole character class. -/
  | charClass (cls : CharClass)
  /-- The text cannot be read on from here. -/
  | fault (fault : Fault)
  deriving DecidableEq

/-- A character class while it is read. The newest range comes first, and `dash` says that a dash
    after it waits for the end of that range. -/
structure OpenClass where
  negated : Bool
  ranges : List (Char × Char)
  dash : Bool

namespace OpenClass

/-- The class right after its opening bracket. -/
def start : OpenClass := ⟨false, [], false⟩

/-- The class at its closing bracket, where a dash that still waits means itself. -/
def close (o : OpenClass) : CharClass :=
  ⟨o.negated, (if o.dash then ('-', '-') :: o.ranges else o.ranges).reverse⟩

/-- The class after one more character: still open, or closed. The first character is always a
    member. A character behind a dash becomes the new end of the newest range, even when that
    range had an end already. -/
def read (o : OpenClass) (c : Char) : Except Fault (OpenClass ⊕ CharClass) :=
  match o.ranges with
  | [] =>
      if !o.negated && (c == '!' || c == '^') then .ok (.inl { o with negated := true })
      else .ok (.inl { o with ranges := [(c, c)] })
  | (first, last) :: older =>
      if c = ']' then .ok (.inr o.close)
      else if o.dash then
        if c < first then .error (.invalidRange first c)
        else .ok (.inl { o with ranges := (first, c) :: older, dash := false })
      else if c = '-' then .ok (.inl { o with dash := true })
      else .ok (.inl { o with ranges := (c, c) :: (first, last) :: older })

end OpenClass

/-- The lexemes of the rest of a glob, which begins inside the given class or outside any. -/
def lexemesFrom : Option OpenClass → List Char → List Lexeme
  | none, [] => []
  | some _, [] => [.fault .unclosedClass]
  | none, c :: rest =>
      if c = '[' then lexemesFrom (some .start) rest
      else if c = '\\' then
        match rest with
        | [] => [.fault .danglingEscape]
        | escaped :: rest => .escaped escaped :: lexemesFrom none rest
      else .bare c :: lexemesFrom none rest
  | some o, c :: rest =>
      match o.read c with
      | .error fault => [.fault fault]
      | .ok (.inl o) => lexemesFrom (some o) rest
      | .ok (.inr cls) => .charClass cls :: lexemesFrom none rest

def lexemes (glob : List Char) : List Lexeme := lexemesFrom none glob

end ParameterHints.Glob
