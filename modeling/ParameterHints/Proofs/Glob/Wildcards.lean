import Mathlib.Data.List.Chain
import ParameterHints.Glob.Basic
import ParameterHints.Proofs.Glob.Language

/-! # Globs of plain characters and stars

A glob without groups, classes, escapes and question marks, and without two stars in a row, is read
character by character. It covers the names that hold its characters in order, with any bytes in
place of each star.
-/

namespace ParameterHints.Glob

/-- A character that is read for itself, where it is not in a class; a star is among them. -/
def IsPlain (c : Char) : Prop := c ∉ ['?', '[', '\\', '\x7b', '\x7d']

instance : DecidablePred IsPlain := fun _ => inferInstanceAs (Decidable (_ ∉ _))

/-- Plain characters, no two stars of which are neighbours. -/
structure Wildcarded (glob : List Char) : Prop where
  plain : ∀ c ∈ glob, IsPlain c
  lone : glob.IsChain fun c d => ¬ (c = '*' ∧ d = '*')

instance : DecidablePred Wildcarded := fun glob =>
  decidable_of_iff
    (glob.all (fun c => decide (IsPlain c)) ∧ glob.IsChain fun c d => ¬ (c = '*' ∧ d = '*'))
    ⟨fun h => ⟨by simpa using h.1, h.2⟩, fun h => ⟨by simpa using h.plain, h.lone⟩⟩

/-- A glob covers bytes: a star covers any of them, and any other character its own. -/
inductive Covers : List Char → List UInt8 → Prop where
  | done : Covers [] []
  | star {glob bytes} (any : List UInt8) : Covers glob bytes → Covers ('*' :: glob) (any ++ bytes)
  | char {c glob bytes} : c ≠ '*' → Covers glob bytes → Covers (c :: glob) (bytesOf c ++ bytes)

variable {c : Char} {glob text : List Char} {bytes : List UInt8}

/-! ## Reading -/

def Token.ofPlain (c : Char) : Token := if c = '*' then .zeroOrMore else .literal c

theorem lexemes_plain (plain : ∀ c ∈ glob, IsPlain c) : lexemes glob = glob.map .bare := by
  unfold lexemes
  induction glob with
  | nil => rfl
  | cons c rest ih =>
      obtain ⟨here, later⟩ := List.forall_mem_cons.mp plain
      simp only [IsPlain, List.mem_cons, List.not_mem_nil, or_false, not_or] at here
      rw [List.map_cons, ← ih later]
      cases rest <;> simp only [lexemesFrom, if_neg here.2.1, if_neg here.2.2.1]

theorem Progress.read_plain {p : Progress} (outside : p.groups = []) (plain : IsPlain c) :
    p.read (.bare c) = .ok (p.push (.ofPlain c)) := by
  simp only [IsPlain, List.mem_cons, List.not_mem_nil, or_false, not_or] at plain
  obtain ⟨question, -, -, opening, closing⟩ := plain
  rw [Progress.read, Token.ofPlain, if_neg question]
  by_cases star : c = '*'
  · rw [if_pos star, if_pos star]
  · rw [if_neg star, if_neg star, if_neg opening, if_neg closing]
    split
    · next comma => rw [Progress.comma, outside, comma]
    · rfl

theorem tokensFrom_plain {p : Progress} (outside : p.groups = []) (h : Wildcarded glob)
    (previous : Option Char) :
    tokensFrom p previous (glob.map .bare) = .ok (p.branch.reverse ++ glob.map .ofPlain) := by
  induction glob generalizing p previous with
  | nil => simp [tokensFrom, Progress.finish, outside]
  | cons c rest ih =>
      obtain ⟨plain, later⟩ := List.forall_mem_cons.mp h.plain
      have alone : ∀ more, (Lexeme.bare c) = .bare '*' → rest.map Lexeme.bare = .bare '*' :: more →
          False := by
        intro more star next
        cases star
        obtain ⟨d, others, rfl, second, -⟩ := List.map_eq_cons_iff.mp next
        cases second
        exact (List.isChain_cons_cons.mp h.lone).1 ⟨rfl, rfl⟩
      rw [List.map_cons, tokensFrom, Progress.read_plain outside plain]
      · have read := ih (p := p.push (.ofPlain c)) outside ⟨later, h.lone.tail⟩ (some c)
        exact read.trans (by simp [Progress.push])
      · exact alone

/-- Such a glob has a token for each character. -/
theorem tokens_wildcarded (h : Wildcarded glob) : tokens glob = .ok (glob.map .ofPlain) := by
  rw [tokens, lexemes_plain h.plain, tokensFrom_plain rfl h]
  rfl

/-! ## Matching -/

theorem matches_inOrder {first second : Option ByteRegex} :
    ((inOrder first second).getD .empty).Matches bytes ↔
      ∃ x y, (first.getD .empty).Matches x ∧ (second.getD .empty).Matches y ∧ x ++ y = bytes := by
  have empty : ∀ {x}, ByteRegex.empty.Matches x ↔ x = [] :=
    ⟨fun | .empty => rfl, fun h => h ▸ .empty⟩
  cases first with
  | none => simp [inOrder, empty]
  | some first =>
      cases second with
      | none => simp [inOrder, empty]
      | some second => exact ByteRegex.matches_seq_iff

theorem matches_plain :
    ((Token.ofPlain c).regex?.getD .empty).Matches bytes ↔ c = '*' ∨ bytes = bytesOf c := by
  unfold Token.ofPlain
  split
  · next star => simp [star, Token.regex?, ByteRegex.matches_anything]
  · next other => simp [other, Token.regex?, ByteRegex.matches_ofBytes]

theorem covers_cons_iff : Covers (c :: glob) bytes ↔
    ∃ x y, (c = '*' ∨ x = bytesOf c) ∧ Covers glob y ∧ x ++ y = bytes := by
  constructor
  · intro h
    cases h with
    | star any rest => exact ⟨any, _, .inl rfl, rest, rfl⟩
    | char _ rest => exact ⟨_, _, .inr rfl, rest, rfl⟩
  · rintro ⟨x, y, own, rest, rfl⟩
    by_cases star : c = '*'
    · subst star
      exact .star x rest
    · obtain rfl := own.resolve_left star
      exact .char star rest

theorem matches_plains :
    ((sequenceRegex? (glob.map .ofPlain)).getD .empty).Matches bytes ↔ Covers glob bytes := by
  induction glob generalizing bytes with
  | nil => exact ⟨fun | .empty => .done, fun | .done => .empty⟩
  | cons c rest ih =>
      rw [List.map_cons, sequenceRegex?, matches_inOrder, covers_cons_iff]
      simp only [matches_plain, ih]

/-- Such a glob matches the names whose bytes it covers. -/
theorem isMatch_wildcarded (h : Wildcarded glob) :
    ∃ g, parse glob = .ok g ∧ ∀ name, g.isMatch name ↔ Covers glob (name.flatMap bytesOf) := by
  have whole : regexOf (glob.map .ofPlain) = (sequenceRegex? (glob.map .ofPlain)).getD .empty := by
    unfold regexOf
    split
    · next single =>
        obtain ⟨c, rest, rfl, first, -⟩ := List.map_eq_cons_iff.mp single
        unfold Token.ofPlain at first
        split at first <;> cases first
    · rfl
  refine ⟨⟨regexOf (glob.map .ofPlain)⟩, by rw [parse, tokens_wildcarded h]; rfl, fun name => ?_⟩
  rw [isMatch, ByteRegex.isMatch_iff, whole, matches_plains]

theorem wildcarded_leading (plain : ∀ c ∈ text, IsPlain c) (unstarred : '*' ∉ text) :
    Wildcarded (text ++ ['*']) where
  plain c member := by
    rcases List.mem_append.mp member with inside | star
    · exact plain c inside
    · obtain rfl := List.mem_singleton.mp star
      simp [IsPlain]
  lone := by
    clear plain
    induction text with
    | nil => exact .singleton _
    | cons c rest ih =>
        obtain ⟨here, later⟩ := not_or.mp (List.mem_cons.not.mp unstarred)
        exact List.isChain_cons.mpr ⟨fun d _ both => here both.1.symm, ih later⟩

end ParameterHints.Glob
