import ParameterHints.Glob.Lexeme

/-! # Tokens of a glob

The second reading of a glob: lexemes become matching tokens, groups in braces become
alternatives, and two stars in a row mean any number of path components where they stand next to
slashes and are two plain wildcards elsewhere.
-/

namespace ParameterHints.Glob

/-- A matching token. -/
inductive Token where
  | literal (c : Char)
  /-- Any one byte. -/
  | any
  /-- Any bytes, possibly none. -/
  | zeroOrMore
  /-- Any leading path components, possibly none. -/
  | recursivePrefix
  /-- A slash and whatever comes after it. -/
  | recursiveSuffix
  /-- A slash, or two slashes with anything between them. -/
  | recursiveZeroOrMore
  | charClass (cls : CharClass)
  /-- One of several branches. -/
  | alternates (branches : List (List Token))

/-- A group that is not closed yet: the tokens before it and its finished branches, both with the
    newest first. -/
structure OpenGroup where
  outer : List Token
  finished : List (List Token)

/-- What has been read so far: the tokens of the current branch, newest first, and the open
    groups around it, innermost first. -/
structure Progress where
  branch : List Token
  groups : List OpenGroup

namespace Progress

/-- Nothing read yet. -/
def start : Progress := ⟨[], []⟩

def push (p : Progress) (token : Token) : Progress := { p with branch := token :: p.branch }

def openGroup (p : Progress) : Progress := ⟨[], ⟨p.branch, []⟩ :: p.groups⟩

/-- A comma begins a new branch inside a group and means itself outside. -/
def comma (p : Progress) : Progress :=
  match p.groups with
  | [] => p.push (.literal ',')
  | group :: outer => ⟨[], { group with finished := p.branch.reverse :: group.finished } :: outer⟩

/-- Close the innermost group, which becomes one token of the branch around it. -/
def closeGroup (p : Progress) : Except Fault Progress :=
  match p.groups with
  | [] => .error .unopenedGroup
  | group :: outer =>
      .ok ⟨.alternates (p.branch.reverse :: group.finished).reverse :: group.outer, outer⟩

/-- The tokens at the end of the glob, where no group may be open. -/
def finish (p : Progress) : Except Fault (List Token) :=
  match p.groups with
  | [] => .ok p.branch.reverse
  | _ :: _ => .error .unclosedGroup

/-- Replace the newest token, a separator, by a recursive wildcard that covers it. A recursive
    wildcard that is there already stays. -/
def absorb (p : Progress) (wildcard : Token) : Progress :=
  match p.branch with
  | .recursivePrefix :: _ | .recursiveSuffix :: _ => p
  | _ :: older => { p with branch := wildcard :: older }
  | [] => p.push wildcard

/-- Two plain wildcards. -/
def pushTwoWildcards (p : Progress) : Progress := (p.push .zeroOrMore).push .zeroOrMore

/-- Two stars, given the character before them and the lexeme behind them. The answer says also
    whether a slash behind the stars belongs to them.

    The stars are recursive at the start of a branch, when the branch ends or a slash follows, and
    later behind a slash (or, inside a group, behind the group's brace or comma), again when the
    branch ends or a slash follows. -/
def doubleStar (p : Progress) (previous : Option Char) (next : Option Lexeme) : Progress × Bool :=
  let grouped := !p.groups.isEmpty
  let startsComponent :=
    previous == some '/' || (grouped && (previous == some ',' || previous == some '\x7b'))
  if p.branch.isEmpty then
    match next with
    | none => (p.push .recursivePrefix, false)
    | some (.bare '/') => (p.push .recursivePrefix, true)
    | some _ => (p.pushTwoWildcards, false)
  else if !startsComponent then (p.pushTwoWildcards, false)
  else
    match next with
    | none => (p.absorb .recursiveSuffix, false)
    | some (.bare c) =>
        if c = '/' then (p.absorb .recursiveZeroOrMore, true)
        else if grouped && (c == ',' || c == '\x7d') then (p.absorb .recursiveSuffix, false)
        else (p.pushTwoWildcards, false)
    | some _ => (p.pushTwoWildcards, false)

/-- A lexeme that is not one of two stars in a row. -/
def read (p : Progress) : Lexeme → Except Fault Progress
  | .bare c =>
      if c = '?' then .ok (p.push .any)
      else if c = '*' then .ok (p.push .zeroOrMore)
      else if c = '\x7b' then .ok p.openGroup
      else if c = '\x7d' then p.closeGroup
      else if c = ',' then .ok p.comma
      else .ok (p.push (.literal c))
  | .escaped c => .ok (p.push (.literal c))
  | .charClass cls => .ok (p.push (.charClass cls))
  | .fault fault => .error fault

end Progress

/-- The character that a lexeme ends in. -/
def Lexeme.lastChar : Lexeme → Option Char
  | .bare c | .escaped c => some c
  | .charClass _ => some ']'
  | .fault _ => none

/-- The tokens of the rest of a glob, given what has been read and the character before the
    rest. -/
def tokensFrom (p : Progress) (previous : Option Char) : List Lexeme → Except Fault (List Token)
  | [] => p.finish
  | .bare '*' :: .bare '*' :: rest =>
      match p.doubleStar previous rest.head?, rest with
      | (p, true), _ :: rest => tokensFrom p (some '/') rest
      | (p, _), rest => tokensFrom p (some '*') rest
  | lexeme :: rest => do tokensFrom (← p.read lexeme) lexeme.lastChar rest

def tokens (glob : List Char) : Except Fault (List Token) :=
  tokensFrom .start none (lexemes glob)

end ParameterHints.Glob
