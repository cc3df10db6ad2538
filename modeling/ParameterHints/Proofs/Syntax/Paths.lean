import ParameterHints.Proofs.Syntax.Walk

/-! # Dotted paths

The dotted path of a chain of references, read off the chain itself. A chain that spells a path does
not come back to a place, since what is left to spell gets shorter; so the bound on the length of a
chain in `Arena.path?` is never met.
-/

namespace ParameterHints.Arena

/-- A place spells a dotted path: it is an identifier, or a reference to one, with or without a
    qualifier that spells what comes before the last dot. -/
inductive Spells (a : Arena) : NodeRef → String → Prop where
  | identifier {r text} : a.identifierAt? r = some text → Spells a r text
  | bare {r name text} : a.referenceAt? r = some ⟨none, name⟩ → a.identifierAt? name = some text →
      Spells a r text
  | qualified {r qualifier name before text} : a.referenceAt? r = some ⟨some qualifier, name⟩ →
      a.identifierAt? name = some text → Spells a (some qualifier) before →
      Spells a r (before ++ "." ++ text)

variable {a : Arena} {r : NodeRef} {path : String} {reference : Reference}

theorem identifierAt?_of_reference (h : a.referenceAt? r = some reference) :
    a.identifierAt? r = none := by
  obtain ⟨⟨kind, start, stop, data⟩, here, found⟩ := Option.bind_eq_some_iff.mp h
  cases kind with
  | reference => simp [identifierAt?, here, identifier?]
  | _ => simp [reference?] at found

theorem live_of_reference (h : a.referenceAt? r = some reference) : (a.node? r).isSome := by
  obtain ⟨n, here, -⟩ := Option.bind_eq_some_iff.mp h
  simp [here]

theorem live_of_identifier {text : String} (h : a.identifierAt? r = some text) :
    (a.node? r).isSome := by
  obtain ⟨n, here, -⟩ := Option.bind_eq_some_iff.mp h
  simp [here]

/-- Whatever path is found at some depth is spelled there. -/
theorem spells_of_pathWithin {depth : Nat} (h : a.pathWithin depth r = some path) :
    a.Spells r path := by
  induction depth generalizing r path with
  | zero => cases h
  | succ depth ih =>
      rw [pathWithin] at h
      cases text : a.identifierAt? r with
      | some found =>
          rw [text] at h
          cases h
          exact .identifier text
      | none =>
          rw [text, Option.none_or] at h
          obtain ⟨⟨qualifier, name⟩, here, h⟩ := Option.bind_eq_some_iff.mp h
          obtain ⟨last, named, h⟩ := Option.bind_eq_some_iff.mp h
          cases qualifier with
          | none =>
              cases h
              exact .bare here named
          | some qualifier =>
              obtain ⟨before, spelled, h⟩ := Option.bind_eq_some_iff.mp h
              cases h
              exact .qualified here named (ih spelled)

theorem live_of_spells (h : a.Spells r path) : (a.node? r).isSome := by
  cases h with
  | identifier text => exact live_of_identifier text
  | bare here => exact live_of_reference here
  | qualified here => exact live_of_reference here

theorem Spells.unique {other : String} (h : a.Spells r path) (h' : a.Spells r other) :
    path = other := by
  induction h generalizing other with
  | identifier text =>
      cases h' with
      | identifier text' => exact Option.some.inj (text.symm.trans text')
      | bare here' => cases text.symm.trans (identifierAt?_of_reference here')
      | qualified here' => cases text.symm.trans (identifierAt?_of_reference here')
  | bare here named =>
      cases h' with
      | identifier text' => cases text'.symm.trans (identifierAt?_of_reference here)
      | bare here' named' =>
          cases here.symm.trans here'
          exact Option.some.inj (named.symm.trans named')
      | qualified here' => cases here.symm.trans here'
  | qualified here named _ ih =>
      cases h' with
      | identifier text' => cases text'.symm.trans (identifierAt?_of_reference here)
      | bare here' => cases here.symm.trans here'
      | qualified here' named' front' =>
          cases here.symm.trans here'
          cases named.symm.trans named'
          rw [ih front']

/-- Different nodes, each of which spells more than a path. -/
structure Above (a : Arena) (way : List NodeRef) (path : String) : Prop where
  different : way.Nodup
  longer : ∀ p ∈ way, ∃ long, a.Spells p long ∧ path.length < long.length

namespace Above

variable {way : List NodeRef} {shorter : String}

theorem start (a : Arena) (path : String) : a.Above [] path := ⟨.nil, by simp⟩

theorem through (h : a.Above way path) (spelled : a.Spells r path) : (r :: way).Nodup := by
  refine List.nodup_cons.mpr ⟨fun member => ?_, h.different⟩
  obtain ⟨long, spells, more⟩ := h.longer r member
  rw [spelled.unique spells] at more
  exact Nat.lt_irrefl _ more

theorem step (h : a.Above way path) (spelled : a.Spells r path)
    (less : shorter.length < path.length) : a.Above (r :: way) shorter where
  different := h.through spelled
  longer := by
    refine List.forall_mem_cons.mpr ⟨⟨path, spelled, less⟩, fun p member => ?_⟩
    obtain ⟨long, spells, more⟩ := h.longer p member
    exact ⟨long, spells, Nat.lt_trans less more⟩

/-- With as many levels left as there are other nodes, one is left for a node that spells. -/
theorem room (h : a.Above way path) (spelled : a.Spells r path) {depth : Nat}
    (enough : a.size ≤ depth + way.length) : ∃ rest, depth = rest + 1 := by
  have live : ∀ p ∈ r :: way, (a.node? p).isSome := by
    refine List.forall_mem_cons.mpr ⟨live_of_spells spelled, fun p member => ?_⟩
    obtain ⟨long, spells, -⟩ := h.longer p member
    exact live_of_spells spells
  have inside := length_le_size (h.through spelled) live
  rw [List.length_cons] at inside
  exact Nat.exists_eq_succ_of_ne_zero (by omega)

end Above

/-- With as many levels left as there are nodes off the way, a chain is read to its end. -/
theorem pathWithin_of_spells (h : a.Spells r path) {depth : Nat} {way : List NodeRef}
    (above : a.Above way path) (enough : a.size ≤ depth + way.length) :
    a.pathWithin depth r = some path := by
  induction h generalizing depth way with
  | identifier text =>
      obtain ⟨rest, rfl⟩ := above.room (.identifier text) enough
      simp [pathWithin, text]
  | bare here named =>
      obtain ⟨rest, rfl⟩ := above.room (.bare here named) enough
      simp [pathWithin, identifierAt?_of_reference here, here, named]
  | @qualified r qualifier name before text here named front ih =>
      have spelled := Spells.qualified here named front
      obtain ⟨rest, rfl⟩ := above.room spelled enough
      have less : before.length < (before ++ "." ++ text).length := by
        have dot : ".".length = 1 := rfl
        rw [String.length_append, String.length_append, dot]
        omega
      have deeper : a.pathWithin rest (some qualifier) = some before :=
        ih (above.step spelled less) (by rw [List.length_cons]; omega)
      simp [pathWithin, identifierAt?_of_reference here, here, named, deeper]

/-- More levels than there are nodes make no difference. -/
theorem pathWithin_eq_some_iff {depth : Nat} (enough : a.size ≤ depth) :
    a.pathWithin depth r = some path ↔ a.Spells r path :=
  ⟨spells_of_pathWithin, fun h => pathWithin_of_spells h (.start a path) enough⟩

/-- The path at a place is the one it spells. -/
theorem path?_iff_spells : a.path? r = some path ↔ a.Spells r path :=
  pathWithin_eq_some_iff (Nat.le_refl _)

theorem pathWithin_of_le {depth : Nat} (enough : a.size ≤ depth) :
    a.pathWithin depth r = a.path? r := by
  ext path
  rw [path?_iff_spells]
  exact pathWithin_eq_some_iff enough

end ParameterHints.Arena
