import Mathlib.Data.List.Sort
import ParameterHints.Proofs.Denylist.Repetition
import ParameterHints.Proofs.Text.ByteOrder

/-! # The sources of a denylist

The merged denylist of a provider is made of the provider's own patterns, those configured for the
language it depends on and the extra ones. It depends on nothing else: not on the order in which the
own patterns are told, nor on what is configured for another language, be it right or wrong.
-/

namespace ParameterHints

namespace HintProvider

variable {p p' : HintProvider}

theorem ownPatterns_sorted (p : HintProvider) : p.ownPatterns.Pairwise (· < ·) := by
  have sorted : (p.denylist.mergeSort fun a b => decide (a ≤ b)).Pairwise
      fun a b => decide (a ≤ b) :=
    List.pairwise_mergeSort (fun a b c => by simpa using le_trans)
      (fun a b => by simpa using le_total a b) p.denylist
  have ascending : p.ownPatterns.Pairwise (· ≤ ·) :=
    (sorted.imp of_decide_eq_true).sublist (eraseDups_sublist _)
  exact (ascending.and (nodup_eraseDups _)).imp fun both => lt_of_le_of_ne both.1 both.2

/-- There is only one ascending list of the patterns. -/
theorem ownPatterns_eq {own : List String} (sorted : own.Pairwise (· < ·))
    (same : ∀ text, text ∈ own ↔ text ∈ p.denylist) : p.ownPatterns = own :=
  p.ownPatterns_sorted.eq_of_mem_iff sorted fun text => by rw [Denylist.mem_ownPatterns, same]

/-- It does not matter in which order a provider tells its patterns. -/
theorem ownPatterns_congr (same : ∀ text, text ∈ p'.denylist ↔ text ∈ p.denylist) :
    p'.ownPatterns = p.ownPatterns :=
  ownPatterns_eq p.ownPatterns_sorted fun text => by rw [Denylist.mem_ownPatterns, same]

end HintProvider

namespace Denylist

/-- The patterns that go into the denylist of a provider, in their order. -/
def sources (p : HintProvider) (c : Config) : List String :=
  p.ownPatterns ++ c.dependencyPatterns (p.dependency.map Language.id) ++ c.extraDenylist

theorem ofProvider_eq (p : HintProvider) (c : Config) : ofProvider p c = ofPatterns (sources p c) :=
  rfl

variable {p p' : HintProvider} {c c' : Config}

theorem dependencyPatterns_congr (agree : ∀ language ∈ p.dependency,
      c'.dependencyDenylists.lookup language.id = c.dependencyDenylists.lookup language.id) :
    c'.dependencyPatterns (p.dependency.map Language.id) =
      c.dependencyPatterns (p.dependency.map Language.id) := by
  cases named : p.dependency with
  | none => rfl
  | some language => exact congrArg (·.getD []) (agree language named)

/-- The merged denylist of a provider depends only on the set of its own patterns, on what is
    configured for the language it depends on, and on the extra patterns. It lists the own patterns
    in the order of their bytes and then the others, each form where it first occurs. It fails only
    for one of these, and the first that is wrong is reported. -/
theorem merged_from_sources (own : ∀ text, text ∈ p'.denylist ↔ text ∈ p.denylist)
    (dependency : p'.dependency = p.dependency) (extra : c'.extraDenylist = c.extraDenylist)
    (agree : ∀ language ∈ p.dependency,
      c'.dependencyDenylists.lookup language.id = c.dependencyDenylists.lookup language.id) :
    ofProvider p' c' = ofProvider p c ∧
    p.ownPatterns.Pairwise (fun a b => Text.bytes a < Text.bytes b) ∧
    (∀ text, text ∈ p.ownPatterns ↔ text ∈ p.denylist) ∧
    (∀ d, ofProvider p c = .ok d → d.forms = (trimmed (sources p c)).eraseDups) ∧
    ((∃ d, ofProvider p c = .ok d) ↔
      ∀ text ∈ sources p c, ∃ q, MethodPattern.parse text.toList = .ok q) ∧
    ∀ fault, ofProvider p c = .error fault ↔
      ∃ before text after, sources p c = before ++ text :: after ∧
        MethodPattern.parse text.toList = .error fault ∧
        ∀ earlier ∈ before, ∃ q, MethodPattern.parse earlier.toList = .ok q := by
  have same : sources p' c' = sources p c := by
    rw [sources, sources, HintProvider.ownPatterns_congr own, dependency, extra,
      dependencyPatterns_congr agree]
  exact ⟨by rw [ofProvider_eq, ofProvider_eq, same],
    p.ownPatterns_sorted.imp Text.bytes_lt_bytes_iff.mpr, fun text => mem_ownPatterns,
    fun d built => forms_of_ofPatterns built, exists_ofPatterns_iff,
    fun fault => ofPatterns_eq_error_iff_exists⟩

/-- A provider that depends on a language, with its own patterns told in some order. -/
def dependent (own : List String) : HintProvider where
  hints _ _ := []
  methodInfo? _ _ := none
  denylist := own
  dependency := some .java

/-- Patterns for another language are never compiled. A pattern that begins with a blank comes
    first, though it is listed without the blank. -/
theorem merged_without_others :
    let told := dependent ["é.*", "a.*", " z.*"]
    let retold := dependent [" z.*", "é.*", "a.*", "é.*"]
    let config : Config := ⟨true, ["a.* ", "*.log(x)"], [("java", ["z.*", "b.*"])]⟩
    let other : Config :=
      ⟨false, ["a.* ", "*.log(x)"], [("java", ["z.*", "b.*"]), ("kotlin", ["broken("])]⟩
    MethodPattern.parse "broken(".toList matches .error _ ∧
      ofProvider retold other = ofProvider told config ∧
      told.ownPatterns.Pairwise (fun a b => Text.bytes a < Text.bytes b) ∧
      ∃ d, ofProvider told config = .ok d ∧
        d.forms = ["z.*", "a.*", "é.*", "b.*", "*.log(x)"].map String.toList := by
  intro told retold config other
  have same : ∀ text, text ∈ retold.denylist ↔ text ∈ told.denylist := fun text => by
    simp only [told, retold, dependent, List.mem_cons]
    grind
  have agree : ∀ language ∈ told.dependency, other.dependencyDenylists.lookup language.id =
      config.dependencyDenylists.lookup language.id := by
    rintro language ⟨⟩
    rfl
  obtain ⟨equal, ascending, -, listed, compiles, -⟩ :=
    merged_from_sources same rfl (show other.extraDenylist = config.extraDenylist from rfl) agree
  have own : told.ownPatterns = [" z.*", "a.*", "é.*"] :=
    HintProvider.ownPatterns_eq (by decide +kernel) fun text => by
      simp only [told, dependent, List.mem_cons]
      grind
  have all : sources told config =
      [" z.*", "a.*", "é.*", "z.*", "b.*", "a.* ", "*.log(x)"] := by
    rw [sources, own]
    rfl
  rw [all] at listed compiles
  have right : ∀ text ∈ [" z.*", "a.*", "é.*", "z.*", "b.*", "a.* ", "*.log(x)"],
      MethodPattern.fault? text.toList = none := by
    decide +kernel
  obtain ⟨d, built⟩ := compiles.mpr fun text among =>
    MethodPattern.fault?_eq_none_iff.mp (right text among)
  exact ⟨by decide +kernel, equal, ascending, d, built, (listed d built).trans (by decide +kernel)⟩

end Denylist

end ParameterHints
