import Mathlib.Data.List.Sort
import ParameterHints.Inlay

/-! # Reading order

Positions are ordered by line and then by column. Sorting hints by position leaves one list only
when those at one position have to keep their order, and `Document.hints` answers that list.
-/

namespace ParameterHints

namespace Position

/-- Whether `a` comes before `b` in reading order. -/
def before (a b : Position) : Prop := a.line < b.line ∨ a.line = b.line ∧ a.column < b.column

theorem notAfter_iff (a b : Position) :
    a.notAfter b ↔ a.line < b.line ∨ a.line = b.line ∧ a.column ≤ b.column := by
  simp [notAfter]

theorem notAfter_refl (a : Position) : a.notAfter a := by
  rw [notAfter_iff]
  exact .inr ⟨rfl, Nat.le_refl _⟩

theorem notAfter_trans (a b c : Position) (h : a.notAfter b) (k : b.notAfter c) :
    a.notAfter c := by
  rw [notAfter_iff] at *
  omega

theorem notAfter_total (a b : Position) : a.notAfter b || b.notAfter a := by
  rw [Bool.or_eq_true, notAfter_iff, notAfter_iff]
  omega

theorem notAfter_antisymm {a b : Position} (h : a.notAfter b) (k : b.notAfter a) : a = b := by
  rw [notAfter_iff] at h k
  have line : a.line = b.line := by omega
  have column : a.column = b.column := by omega
  cases a
  cases b
  exact congr (congrArg mk line) column

theorem before_iff (a b : Position) : a.before b ↔ ¬ b.notAfter a := by
  rw [notAfter_iff]
  unfold before
  omega

theorem notAfter_of_before {a b : Position} (h : a.before b) : a.notAfter b := by
  rw [notAfter_iff]
  unfold before at h
  omega

theorem before_irrefl (a : Position) : ¬ a.before a := by
  rintro (line | ⟨-, column⟩)
  · exact Nat.lt_irrefl _ line
  · exact Nat.lt_irrefl _ column

theorem before_of_notAfter {a b : Position} (h : a.notAfter b) (different : a ≠ b) :
    a.before b := by
  rw [notAfter_iff] at h
  rcases h with line | ⟨line, column⟩
  · exact .inl line
  · refine .inr ⟨line, Nat.lt_of_le_of_ne column fun same => different ?_⟩
    cases a
    cases b
    simp_all

end Position

section Sorting

variable {α : Type} {le : α → α → Bool}

/-- A sorted list around an element is cut there by comparing with it. -/
theorem filter_around {a : α} {front rest : List α}
    (sorted : (front ++ a :: rest).Pairwise fun x y => le x y) (before : ∀ b ∈ front, !le a b) :
    (front ++ rest).filter (fun b => !le a b) = front ∧ (front ++ rest).filter (le a) = rest := by
  have behind : ∀ b ∈ rest, le a b :=
    (List.pairwise_cons.mp (List.pairwise_append.mp sorted).2.1).1
  constructor
  · rw [List.filter_append, List.filter_eq_self.mpr before,
      List.filter_eq_nil_iff.mpr fun b member => by simp [behind b member], List.append_nil]
  · rw [List.filter_append, List.filter_eq_self.mpr behind,
      List.filter_eq_nil_iff.mpr fun b member => by simpa using before b member, List.nil_append]

/-- What is left out before sorting is left out of the sorted list, and nothing moves. -/
theorem sublist_mergeSort_mergeSort (trans : ∀ a b c, le a b → le b c → le a c)
    (total : ∀ a b, le a b || le b a) {xs ys : List α} (h : xs.Sublist ys) :
    (xs.mergeSort le).Sublist (ys.mergeSort le) := by
  induction h with
  | slnil => exact List.Sublist.refl _
  | @cons xs ys a _ ih =>
      obtain ⟨front, rest, sorted, others, -⟩ := List.mergeSort_cons trans total a ys
      rw [others] at ih
      rw [sorted]
      exact ih.trans ((List.sublist_cons_self a rest).append_left front)
  | @cons_cons xs ys a _ ih =>
      obtain ⟨front, rest, sorted, others, before⟩ := List.mergeSort_cons trans total a xs
      obtain ⟨front', rest', sorted', others', before'⟩ := List.mergeSort_cons trans total a ys
      -- Both sorted lists are cut at `a`, and the parts are told by a comparison with it.
      have ordered := List.pairwise_mergeSort trans total (a :: xs)
      have ordered' := List.pairwise_mergeSort trans total (a :: ys)
      rw [sorted] at ordered
      rw [sorted'] at ordered'
      rw [others, others'] at ih
      obtain ⟨low, high⟩ := filter_around ordered before
      obtain ⟨low', high'⟩ := filter_around ordered' before'
      have lower : front.Sublist front' := low ▸ low' ▸ ih.filter _
      have upper : rest.Sublist rest' := high ▸ high' ▸ ih.filter _
      rw [sorted, sorted']
      exact lower.append (upper.cons_cons a)

end Sorting

namespace InlayHint

/-- `sorted` lists `hints` by position, and hints at one position in the order in which they
    came. -/
structure StablySorted (hints sorted : List InlayHint) : Prop where
  perm : sorted.Perm hints
  ordered : sorted.Pairwise fun a b => a.position.notAfter b.position
  ties : ∀ p, sorted.filter (fun h => h.position = p) = hints.filter (fun h => h.position = p)

/-- Two lists in reading order with the same hints at every position are the same. -/
theorem eq_of_ties {first second : List InlayHint} (perm : first.Perm second)
    (hf : first.Pairwise fun a b => a.position.notAfter b.position)
    (hs : second.Pairwise fun a b => a.position.notAfter b.position)
    (ties : ∀ p, first.filter (fun h => h.position = p) = second.filter (fun h => h.position = p)) :
    first = second := by
  induction first generalizing second with
  | nil => exact perm.nil_eq
  | cons x xs ih =>
      cases second with
      | nil => exact perm.eq_nil
      | cons y ys =>
          obtain ⟨afterX, tailX⟩ := List.pairwise_cons.mp hf
          obtain ⟨afterY, tailY⟩ := List.pairwise_cons.mp hs
          have xy : x.position.notAfter y.position := by
            rcases List.mem_cons.mp (perm.mem_iff.mpr List.mem_cons_self) with same | later
            · rw [same]
              exact Position.notAfter_refl _
            · exact afterX y later
          have yx : y.position.notAfter x.position := by
            rcases List.mem_cons.mp (perm.mem_iff.mp List.mem_cons_self) with same | later
            · rw [same]
              exact Position.notAfter_refl _
            · exact afterY x later
          have place := Position.notAfter_antisymm xy yx
          have heads := ties x.position
          simp only [List.filter_cons, decide_true, if_true, place.symm, List.cons.injEq] at heads
          obtain ⟨rfl, -⟩ := heads
          refine congrArg (x :: ·) (ih perm.cons_inv tailX tailY ?_)
          intro p
          have both := ties p
          simp only [List.filter_cons] at both
          split at both
          · exact (List.cons.inj both).2
          · exact both

theorem order_trans (a b c : InlayHint) (h : a.position.notAfter b.position)
    (k : b.position.notAfter c.position) : a.position.notAfter c.position :=
  Position.notAfter_trans _ _ _ h k

theorem order_total (a b : InlayHint) :
    a.position.notAfter b.position || b.position.notAfter a.position :=
  Position.notAfter_total _ _

/-- Merge sort lists hints in reading order and keeps ties as they are. -/
theorem stablySorted_mergeSort (hints : List InlayHint) :
    StablySorted hints (hints.mergeSort fun a b => a.position.notAfter b.position) where
  perm := List.mergeSort_perm _ _
  ordered := List.pairwise_mergeSort order_trans order_total hints
  ties p := by
    -- The hints at `p` are a sublist of `hints` in order, so they stay one of the sorted list, and
    -- there are as many of them there.
    have level : (hints.filter (fun h => h.position = p)).Pairwise
        fun a b => a.position.notAfter b.position := by
      refine List.pairwise_of_forall_mem_list fun a ha b hb => ?_
      rw [of_decide_eq_true (List.mem_filter.mp ha).2, of_decide_eq_true (List.mem_filter.mp hb).2]
      exact Position.notAfter_refl p
    have kept := List.sublist_mergeSort order_trans order_total level List.filter_sublist
    have within := kept.filter fun h => decide (h.position = p)
    rw [List.filter_filter] at within
    simp only [Bool.and_self] at within
    exact (within.eq_of_length
      ((List.mergeSort_perm hints _).filter _).length_eq.symm).symm

/-- A list has exactly one stable sorting by position. -/
theorem stablySorted_iff (hints sorted : List InlayHint) :
    StablySorted hints sorted ↔
      sorted = hints.mergeSort fun a b => a.position.notAfter b.position := by
  have merged := stablySorted_mergeSort hints
  constructor
  · intro h
    exact eq_of_ties (h.perm.trans merged.perm.symm) h.ordered merged.ordered fun p =>
      (h.ties p).trans (merged.ties p).symm
  · rintro rfl
    exact merged

/-- Hints at different positions have one order only. -/
theorem mergeSort_eq_of_before {hints sorted : List InlayHint} (perm : sorted.Perm hints)
    (ordered : sorted.Pairwise fun a b => a.position.before b.position) :
    (hints.mergeSort fun a b => a.position.notAfter b.position) = sorted := by
  have distinct : (sorted.map position).Nodup := by
    refine List.pairwise_map.mpr (ordered.imp fun h same => ?_)
    exact Position.before_irrefl _ (same ▸ h)
  have merged := stablySorted_mergeSort hints
  have same := merged.perm.trans perm.symm
  refine same.eq_of_pairwise (fun a b first second h k => ?_) merged.ordered
    (ordered.imp Position.notAfter_of_before)
  exact List.inj_on_of_nodup_map distinct (same.mem_iff.mp first) second
    (Position.notAfter_antisymm h k)

end InlayHint

theorem Document.inlay_eq (d : Document) (info : Option MethodInfo) (h : ParameterHint) :
    d.inlay info h =
      ⟨d.lines.position h.offset, h.text ++ ": ", info.map MethodInfo.fullName⟩ := by
  cases info <;> rfl

end ParameterHints
