import ParameterHints.Proofs.Call.Wrappers
import ParameterHints.Proofs.Denylist.Compilation
import ParameterHints.Proofs.Inlay.Origin

/-! # Methods of the language

The provider for Groovy denies the methods that the language adds to every object. A call of one of
them shows nothing, be it called as the static method that it is or through a wrapper, and there is
no configuration that changes this.
-/

namespace ParameterHints

/-- The class of the methods that the language adds to every object. -/
def languageClass : String := "org.codehaus.groovy.runtime.DefaultGroovyMethods"

/-- What the full names of its methods begin with. -/
def languagePrefix : List Char := (languageClass ++ ".").toList

namespace Host

theorem languagePrefix_qualify (name : String) :
    languagePrefix <+: (qualify languageClass name).toList := by
  have named : languageClass.isEmpty = false := by decide +kernel
  rw [qualify, named, languagePrefix]
  simp [String.toList_append]

/-- The pattern of the provider is still there in every denylist made from it. -/
theorem groovy_denies {h : Host} {c : Config} {d : Denylist}
    (built : Denylist.ofProvider h.groovyProvider c = .ok d) {info : MethodInfo}
    (leads : languagePrefix <+: info.fullName.toList) : d.denies info := by
  have plain : languagePrefix.all fun c => decide (Glob.IsPlain c) := by decide +kernel
  have first : languagePrefix.head? = some 'o' := by decide +kernel
  obtain ⟨q, parsed, matching⟩ := MethodPattern.parse_leading
    (fun c member => of_decide_eq_true (List.all_eq_true.mp plain c member))
    (by decide +kernel) (by decide +kernel) (by simp [first, Text.isBlank])
  have own : "org.codehaus.groovy.runtime.DefaultGroovyMethods.*" ∈ h.groovyProvider.denylist :=
    List.mem_singleton_self _
  refine Denylist.denies_of_own built own ?_ (matching info leads)
  have trimmed : Text.trim "org.codehaus.groovy.runtime.DefaultGroovyMethods.*".toList =
      languagePrefix ++ ['*'] := by decide +kernel
  rw [trimmed, parsed]

end Host

namespace Table

variable {t : Table} {a : Arena} {m s : Method} {r : NodeRef}

/-- The call at a place resolves, and what runs is a method of the language. -/
def RunsLanguage (t : Table) (a : Arena) (r : NodeRef) : Prop :=
  ∃ id m s owner c, t.resolve? a r = some id ∧ t.method? id = some m ∧ t.Runs m s ∧
    s.containingClass = some owner ∧ t.class? owner = some c ∧
    c.qualifiedName = some languageClass

theorem RunsLanguage.info (h : t.RunsLanguage a r) :
    ∃ info, t.host.methodInfo? a r = some info ∧ languagePrefix <+: info.fullName.toList := by
  obtain ⟨id, m, s, owner, decl, resolved, found, runs, contained, known, named⟩ := h
  have info : t.host.infoOf? s =
      some ⟨Host.qualify languageClass s.name, s.parameters.map fun p => p.name.getD ""⟩ := by
    simp [Host.infoOf?, contained, host, known, named]
  have whole := runs.methodInfo? resolved found
  exact ⟨_, whole.trans info, Host.languagePrefix_qualify s.name⟩

end Table

namespace Document

variable {d : Document} {r : NodeRef}

theorem callHints_of_denied {info : MethodInfo}
    (known : d.provider.methodInfo? d.arena r = some info) (denied : d.denylist.denies info)
    (start stop : Nat) : d.callHints start stop r = [] := by
  simp [callHints, known, denied]

/-- The same document, were other hints given for its calls. -/
def answering (d : Document) (other : Arena → NodeRef → List ParameterHint) : Document :=
  { d with provider := { d.provider with hints := other } }

theorem callHints_answering {other : Arena → NodeRef → List ParameterHint}
    (agree : other d.arena r = d.provider.hints d.arena r) (start stop : Nat) :
    (d.answering other).callHints start stop r = d.callHints start stop r := by
  unfold callHints answering
  dsimp only
  rw [agree]
  rfl

theorem hints_answering {other : Arena → NodeRef → List ParameterHint}
    (same : ∀ start stop r, (d.answering other).callHints start stop r = d.callHints start stop r)
    (root : NodeRef) (range : PositionRange) :
    (d.answering other).hints root range = d.hints root range := by
  have collected : ∀ start stop,
      (d.answering other).collect root start stop = d.collect root start stop := fun start stop =>
    congrArg (List.flatMap · _) (funext (same start stop))
  unfold hints
  simp only [collected]
  rfl

/-- A call that runs a method of the language shows nothing of its own: were its hints others, the
    hints of a range would be the same. So no hint bears the name of such a method. -/
theorem hints_without_language (t : Table) (a : Arena) (lines : LineMap) (config : Config)
    (denylist : Denylist)
    (built : Denylist.ofProvider t.host.groovyProvider config = .ok denylist) :
    let d : Document := ⟨a, lines, t.host.groovyProvider, denylist, config⟩
    (∀ r, t.RunsLanguage a r → ∀ start stop, d.callHints start stop r = []) ∧
      (∀ other, (∀ r, ¬ t.RunsLanguage a r → other a r = t.host.hints a r) →
        ∀ root range, (d.answering other).hints root range = d.hints root range) ∧
      ∀ root range, ∀ h ∈ d.hints root range, ∀ tooltip, h.tooltip = some tooltip →
        ¬ languagePrefix <+: tooltip.toList := by
  intro d
  have silent : ∀ other r, t.RunsLanguage a r → ∀ start stop,
      (d.answering other).callHints start stop r = [] := by
    intro other r language start stop
    obtain ⟨info, known, leads⟩ := language.info
    exact callHints_of_denied known (Host.groovy_denies built leads) start stop
  refine ⟨silent t.host.hints, ?_, ?_⟩
  · intro other agree
    refine hints_answering fun start stop r => ?_
    by_cases language : t.RunsLanguage a r
    · rw [silent other r language, ← silent t.host.hints r language start stop]
      rfl
    · exact callHints_answering (agree r language) start stop
  · intro root range h member tooltip shown leads
    obtain ⟨r, -, allowed, hint, -, -, rfl⟩ := mem_hints member
    rw [inlay_eq] at shown
    obtain ⟨info, known, rfl⟩ := Option.map_eq_some_iff.mp shown
    have denied := Host.groovy_denies built leads
    rw [allowed info known] at denied
    cases denied

/-- A method of the language with a wrapper, and one that nobody denies. -/
def languageTable : Table := .ofChanges
  [.addClass languageClass,
    .addMethod ⟨"each", some 0, [⟨some "self", .object, false⟩, ⟨some "closure", .closure, false⟩],
      .regular⟩,
    .addWrapper 0, .addMethod ⟨"f", none, [⟨some "x", .int, false⟩], .regular⟩]

/-- A call of the wrapper around a call of the other method. -/
def eachTree : SyntaxTree := .ofItems
  [.statement (.trailing (.call "list.each" []) [.statement (.call "f" [.number "1"])])]

theorem hints_without_each :
    let config : Config := ⟨true, ["*.println(*)"], [("java", ["java.lang.Math.*"])]⟩
    ∃ denylist, Denylist.ofProvider languageTable.host.groovyProvider config = .ok denylist ∧
      languageTable.RunsLanguage eachTree.arena (some 4) ∧
      let d := eachTree.document languageTable denylist config
      (∀ start stop, d.callHints start stop (some 4) = []) ∧
        ∀ h ∈ d.hints eachTree.root .everything, ∀ tooltip, h.tooltip = some tooltip →
          ¬ languagePrefix <+: tooltip.toList := by
  intro config
  have runs : languageTable.RunsLanguage eachTree.arena (some 4) :=
    ⟨1, _, _, 0, _, by decide +kernel, rfl, .target rfl rfl, rfl, rfl, rfl⟩
  have compiles :
      (Denylist.ofProvider languageTable.host.groovyProvider config).toOption.isSome := by
    decide +kernel
  cases built : Denylist.ofProvider languageTable.host.groovyProvider config with
  | error fault =>
      rw [built] at compiles
      cases compiles
  | ok denylist =>
      obtain ⟨silent, -, unnamed⟩ := hints_without_language languageTable eachTree.arena
        (.ofText eachTree.source.toList) config denylist built
      exact ⟨denylist, rfl, runs, silent (some 4) runs, unnamed eachTree.root .everything⟩

end Document

end ParameterHints
