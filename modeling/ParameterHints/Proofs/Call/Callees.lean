import ParameterHints.Proofs.Call.Resolution
import ParameterHints.Proofs.Declaration.Ledger
import ParameterHints.Proofs.Syntax.DottedPaths
import ParameterHints.Proofs.Syntax.Narrow

/-! # Calls of dotted callees

A dotted callee is split from the left when it is written, and the qualified name of a class is
split from the right when it is declared. Both come to the last dot: the call means a method of the
name behind it, in the class that is found by all that is in front of it.
-/

namespace ParameterHints.Table

variable {t : Table} {a : Arena} {c : Call} {r : NodeRef} {path last : String}
  {front? : Option String} {id : MethodId}

/-- The class of a call is that of what its callee has in front of the last dot. -/
theorem owner?_of_refers (h : a.Refers c.callee path front? last) :
    t.owner? a c = front?.bind t.findClass? := by
  obtain ⟨⟨qualifier, name⟩, here, before⟩ := h.qualifier
  cases front? with
  | none =>
      obtain rfl : qualifier = none := before
      simp [owner?, here]
  | some front =>
      obtain ⟨live, spelled⟩ := before
      obtain ⟨i, rfl⟩ : ∃ i, qualifier = some i := by
        cases qualifier with
        | none => cases live
        | some i => exact ⟨i, rfl⟩
      simp [owner?, here, spelled]

theorem resolve?_of_refers (call : a.callAt? r = some c)
    (h : a.Refers c.callee path front? last) :
    t.resolve? a r = some id ↔
      (t.methodsNamed last).filter (t.isCandidate a c (front?.bind t.findClass?)) = [id] := by
  rw [resolve?_iff_of_calls (calls_iff.mpr ⟨call, h.name⟩), candidates, owner?_of_refers h]

theorem callee_leads (d : Draft) (dotted : String) (arguments : List Expr) :
    (d.path dotted).2.Leads (d.expr (.call dotted arguments)).2 :=
  (((Draft.Leads.refl.write "(").trans (Draft.arguments_leads _ true arguments)).write ")").add _

/-- A call of a dotted path is there however its draft is continued. -/
theorem callAt?_of_leads {d later : Draft} {dotted : String} {arguments : List Expr}
    (leads : (d.expr (.call dotted arguments)).2.Leads later) :
    ∃ c, later.arena.callAt? (d.expr (.call dotted arguments)).1 = some c ∧
      c.callee = (d.path dotted).1 := by
  let listed := ((d.path dotted).2.write "(").arguments true arguments
  let closed := listed.2.write ")"
  have held := Draft.contentAt?_add closed
    (.call (d.path dotted).1 listed.1 ⟨d.offset, closed.offset⟩)
  have call : (d.expr (.call dotted arguments)).2.arena.callAt?
      (d.expr (.call dotted arguments)).1 = some ⟨(d.path dotted).1, listed.1, []⟩ := by
    rw [Arena.callAt?_eq]
    exact congrArg (Option.bind · Content.call?) held
  obtain ⟨closures, still⟩ := leads.carried.callAt? call
  exact ⟨_, still, rfl⟩

/-- Every dotted path is written as a node that covers it and reads back as it. The name of that
    node is behind the last dot, as is the simple name of a class that is declared with the path,
    and its qualifier is the rest. So a call of the path, wherever its draft leads, means a method
    of that name in the class that the rest finds. In numbers of 32 bits the node is the same, as
    long as text and nodes fit. -/
theorem callee_cut_at_last_dot (d : Draft) (dotted : String) :
    ∃ front? last, Text.CutAtLastDot dotted front? last ∧
      d.Covers (d.path dotted).1 (d.path dotted).2 dotted ∧
      (d.path dotted).2.arena.Refers (d.path dotted).1 dotted front? last ∧
      (∀ t : Table, (t.addClass dotted).class? t.nextClass = some ⟨last, some dotted⟩) ∧
      (∀ arguments later, (d.expr (.call dotted arguments)).2.Leads later →
        ∃ c, later.arena.callAt? (d.expr (.call dotted arguments)).1 = some c ∧
          c.callee = (d.path dotted).1 ∧
          ∀ (t : Table) id, t.resolve? later.arena (d.expr (.call dotted arguments)).1 = some id ↔
            (t.methodsNamed last).filter
              (t.isCandidate later.arena c (front?.bind t.findClass?)) = [id]) ∧
      (Draft.empty.Leads d → Narrow.Fits (d.path dotted).2 →
        Narrow.path dotted d = .ok (d.path dotted)) := by
  obtain ⟨covers, front?, last, cut, refers⟩ := Draft.path_writes d dotted
  refine ⟨front?, last, cut, covers, refers, ?_, ?_, ?_⟩
  · exact fun t => class?_of_declares (.qualified cut) t
  · intro arguments later leads
    obtain ⟨c, call, callee⟩ := callAt?_of_leads leads
    have still := refers.carried ((callee_leads d dotted arguments).trans leads).carried
    rw [← callee] at still
    exact ⟨c, call, callee, fun t id => resolve?_of_refers call still⟩
  · exact fun state fits => Narrow.run_path (state.pooled Draft.WellFormed.empty.pooled) dotted fits

/-- The overload of the class in front of the last dot is called, behind a node that is there
    already. Where nothing is behind the last dot, the name is empty. -/
theorem overload_called_by_path :
    let d := (Draft.empty.identifier "é").2
    let call := d.expr (.call "q.A.f" [.number "1"])
    (∃ c, call.2.arena.callAt? call.1 = some c ∧
      ((ofChanges overloads).methodsNamed "f").filter ((ofChanges overloads).isCandidate
        call.2.arena c ((ofChanges overloads).findClass? "q.A")) = [0]) ∧
      Narrow.path "q.A.f" d = .ok (d.path "q.A.f") ∧
      (d.path ".ä.").2.arena.Refers (d.path ".ä.").1 ".ä." (some ".ä") "" := by
  intro d call
  have state : Draft.empty.Leads d := Draft.identifier_leads .empty "é"
  obtain ⟨_, _, cut, -, -, -, calls, narrow⟩ := callee_cut_at_last_dot d "q.A.f"
  have parts : Text.CutAtLastDot ("q.A" ++ "." ++ "f") (some "q.A") "f" := .behind (by decide)
  obtain ⟨rfl, rfl⟩ := cut.unique parts
  refine ⟨?_, narrow state ⟨by decide +kernel, by decide +kernel⟩, ?_⟩
  · obtain ⟨c, found, -, means⟩ := calls [.number "1"] call.2 .refl
    exact ⟨c, found, (means (ofChanges overloads) 0).mp (by decide +kernel)⟩
  · obtain ⟨_, _, cut, -, refers, -⟩ := callee_cut_at_last_dot d ".ä."
    have parts : Text.CutAtLastDot (".ä" ++ "." ++ "") (some ".ä") "" := .behind (by decide)
    obtain ⟨rfl, rfl⟩ := cut.unique parts
    exact refers

end ParameterHints.Table
