import ParameterHints.Proofs.Call.Agreement
import ParameterHints.Proofs.Declaration.History

/-! # Calls of wrappers

A call of a wrapper has two faces. Its hints are those of the wrapper, which lacks the receiver, and
a denylist sees the method that was wrapped. The two never drift apart, however a table was made:
what was wrapped stays where the wrapper looks for it.
-/

namespace ParameterHints.Table

/-- The method that runs when a method is called: the target of a wrapper, where the table has it,
    and otherwise the method itself. -/
inductive Runs (t : Table) (m : Method) : Method → Prop where
  | target {id s} : m.kind = .wrapper id → t.method? id = some s → Runs t m s
  | itself : (∀ id, m.kind = .wrapper id → t.method? id = none) → Runs t m m

variable {t : Table} {a : Arena} {m s : Method} {r : NodeRef} {id : MethodId} {info : MethodInfo}

theorem Runs.identity (h : t.Runs m s) : t.host.identity m = s := by
  cases h with
  | target kind found => simp [Host.identity, Method.target?, kind, host, found]
  | itself missing =>
      cases kind : m.kind with
      | regular => simp [Host.identity, Method.target?, kind]
      | wrapper id => simp [Host.identity, Method.target?, kind, host, missing id kind]

/-- A call is identified by the method that runs. -/
theorem Runs.methodInfo? (h : t.Runs m s) (resolved : t.resolve? a r = some id)
    (found : t.method? id = some m) : t.host.methodInfo? a r = t.host.infoOf? s := by
  obtain ⟨c, call, -⟩ := Option.bind_eq_some_iff.mp resolved
  simp [Host.methodInfo?, call, host, resolved, found, ← h.identity]

/-- The full name of a method: the qualified name of its class, unless that is empty, a dot and its
    own name. Its parameters are told by their names, or by nothing. -/
structure IdentifiedBy (t : Table) (s : Method) (info : MethodInfo) : Prop where
  fullName : ∃ owner decl qualified, s.containingClass = some owner ∧ t.class? owner = some decl ∧
    decl.qualifiedName = some qualified ∧
    info.fullName = if qualified = "" then s.name else qualified ++ "." ++ s.name
  parameterNames : info.parameterNames = s.parameters.map fun p => p.name.getD ""

theorem infoOf?_eq_some_iff : t.host.infoOf? s = some info ↔ t.IdentifiedBy s info := by
  have joined : ∀ qualified : String, Host.qualify qualified s.name =
      if qualified = "" then s.name else qualified ++ "." ++ s.name := fun qualified => by
    simp [Host.qualify, String.isEmpty_iff]
  constructor
  · intro h
    obtain ⟨owner, contained, h⟩ := Option.bind_eq_some_iff.mp h
    obtain ⟨decl, known, h⟩ := Option.bind_eq_some_iff.mp h
    obtain ⟨qualified, named, h⟩ := Option.bind_eq_some_iff.mp h
    cases h
    exact ⟨⟨owner, decl, qualified, contained, known, named, joined qualified⟩, rfl⟩
  · rintro ⟨⟨owner, decl, qualified, contained, known, named, fullName⟩, parameterNames⟩
    have known : t.host.class? owner = some decl := known
    have made : info = ⟨Host.qualify qualified s.name, s.parameters.map (·.name.getD "")⟩ := by
      rw [joined, ← fullName, ← parameterNames]
    simp [Host.infoOf?, contained, known, named, made]

/-- What a table says of a call that means a method standing for another: the signature is that of
    the one, without the receiver if it is a wrapper, and the identity is that of the other. A
    wrapper around a wrapper is identified by a method without a class, so it has no identity. -/
structure TwoFaced (t : Table) (a : Arena) (r : NodeRef) (w s : Method) : Prop where
  signature : t.host.signature? a r = some w.parameters
  identity : ∀ info, t.host.methodInfo? a r = some info ↔ t.IdentifiedBy s info
  itself : w.kind = .regular → s = w
  wrapped : ∀ target, w.kind = .wrapper target → t.Wraps w target s
  surplus : ∀ target info, w.kind = .wrapper target → t.host.methodInfo? a r = some info →
    info.parameterNames.length = w.parameters.length + 1
  nested : ∀ target inner, w.kind = .wrapper target → s.kind = .wrapper inner →
    t.host.methodInfo? a r = none

section History

variable {changes : List TableChange} {w : Method} {target : MethodId}

theorem StandsFor.runs (h : StandsFor changes id w s)
    (declared : ∀ m, .addMethod m ∈ changes → m.kind = .regular) :
    (ofChanges changes).Runs w s := by
  cases kind : w.kind with
  | regular =>
      obtain rfl := h.itself kind
      exact .itself fun target wrapper => by simp [kind] at wrapper
  | wrapper target => exact .target kind (h.wraps declared kind).found

/-- Every wrapper in a table has no class, whatever it wraps. -/
theorem unowned_of_wrapper (declared : ∀ m, .addMethod m ∈ changes → m.kind = .regular)
    (found : (ofChanges changes).method? id = some w) (wrapper : w.kind = .wrapper target) :
    w.containingClass = none := by
  obtain ⟨s, stands⟩ := exists_standsFor found
  exact (stands.wraps declared wrapper).unowned

theorem IdentifiedBy.owned (h : t.IdentifiedBy s info) : s.containingClass ≠ none := by
  obtain ⟨owner, -, -, contained, -⟩ := h.fullName
  simp [contained]

theorem StandsFor.twoFaced (h : StandsFor changes id w s)
    (declared : ∀ m, .addMethod m ∈ changes → m.kind = .regular)
    (resolved : (ofChanges changes).resolve? a r = some id)
    (found : (ofChanges changes).method? id = some w) : TwoFaced (ofChanges changes) a r w s := by
  have identity : ∀ info, (ofChanges changes).host.methodInfo? a r = some info ↔
      (ofChanges changes).IdentifiedBy s info := fun info => by
    rw [(h.runs declared).methodInfo? resolved found, infoOf?_eq_some_iff]
  refine ⟨(settled_of_resolve? resolved found).signature, identity, h.itself,
    fun target => h.wraps declared, ?_, ?_⟩
  · intro target info wrapper known
    obtain ⟨receiver, parameters⟩ := (h.wraps declared wrapper).parameters
    rw [((identity info).mp known).parameterNames, parameters]
    simp
  · intro target inner wrapper nested
    rw [Option.eq_none_iff_forall_ne_some]
    intro info known
    have behind := (h.wraps declared wrapper).found
    exact ((identity info).mp known).owned (unowned_of_wrapper declared behind nested)

end History

/-- Where only regular methods are declared, a wrapper never loses the method that it was made
    around, and a call that resolves is hinted by its method and identified by the one that this
    stands for. -/
theorem wrappers_two_faced (changes : List TableChange)
    (declared : ∀ m, .addMethod m ∈ changes → m.kind = .regular) :
    (∀ id w target, (ofChanges changes).method? id = some w → w.kind = .wrapper target →
      ∃ s, StandsFor changes id w s ∧ (ofChanges changes).Wraps w target s) ∧
    ∀ a r id, (ofChanges changes).resolve? a r = some id →
      ∃ w s, (ofChanges changes).method? id = some w ∧ StandsFor changes id w s ∧
        TwoFaced (ofChanges changes) a r w s := by
  constructor
  · intro id w target found wrapper
    obtain ⟨s, stands⟩ := exists_standsFor found
    exact ⟨s, stands, stands.wraps declared wrapper⟩
  · intro a r id resolved
    obtain ⟨w, found⟩ := method_of_resolve? resolved
    obtain ⟨s, stands⟩ := exists_standsFor found
    exact ⟨w, s, found, stands, stands.twoFaced declared resolved found⟩

/-- A method with two parameters, a wrapper around it, and a wrapper around that. -/
def wrappedTwice : List TableChange :=
  [.addClass "q.A",
    .addMethod ⟨"f", some 0, [⟨some "self", .object, false⟩, ⟨some "x", .int, false⟩], .regular⟩,
    .addWrapper 0, .addWrapper 1]

/-- The call with one argument means the wrapper around the method. -/
theorem wrappedTwice_two_faced :
    let a := (SyntaxTree.ofItems [.statement (.call "f" [.number "1"])]).arena
    let t := ofChanges wrappedTwice
    (∀ m, .addMethod m ∈ wrappedTwice → m.kind = .regular) ∧ t.resolve? a (some 3) = some 1 ∧
      t.host.methodInfo? a (some 3) = some ⟨"q.A.f", ["self", "x"]⟩ ∧
      (∃ s, StandsFor wrappedTwice 2 ⟨"f", none, [], .wrapper 1⟩ s ∧
        t.Wraps ⟨"f", none, [], .wrapper 1⟩ 1 s) ∧
      ∃ w s, t.method? 1 = some w ∧ StandsFor wrappedTwice 1 w s ∧ TwoFaced t a (some 3) w s := by
  intro a t
  have declared : ∀ m, TableChange.addMethod m ∈ wrappedTwice → m.kind = .regular := by
    simp [wrappedTwice]
  have resolved : t.resolve? a (some 3) = some 1 := by decide +kernel
  exact ⟨declared, resolved, by decide +kernel,
    (wrappers_two_faced wrappedTwice declared).1 2 _ 1 rfl rfl,
    (wrappers_two_faced wrappedTwice declared).2 a (some 3) 1 resolved⟩

end ParameterHints.Table
