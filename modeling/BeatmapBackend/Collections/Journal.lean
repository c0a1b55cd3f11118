import Mathlib.Data.List.Infix
import Mathlib.Data.List.Nodup
import Mathlib.Tactic.Common

/-! Passes over a list of tasks with a journal of those that are done. A pass does the tasks the
journal lacked at its start, in order and up to some point, and enters each one as it is done. -/
namespace Collections

variable {α : Type} [DecidableEq α] {journal tasks done : List α} {t : α} {finished : Prop}

def pending (journal tasks : List α) : List α := tasks.filter fun t => decide (t ∉ journal)

/-- A loop over the tasks has done some of them, and all that were pending if it is finished. -/
structure Progress (journal tasks done : List α) (finished : Prop) : Prop where
  isPrefix : done <+: pending journal tasks
  complete : finished → done = pending journal tasks

namespace Progress

theorem nil : Progress journal [] [] finished := ⟨List.nil_prefix, fun _ => rfl⟩

theorem skip (ht : t ∈ journal) (h : Progress journal tasks done finished) :
    Progress journal (t :: tasks) done finished := by
  have hskip : pending journal (t :: tasks) = pending journal tasks := by simp [pending, ht]
  exact ⟨hskip ▸ h.isPrefix, hskip ▸ h.complete⟩

theorem step (ht : t ∉ journal) (h : Progress journal tasks done finished) :
    Progress journal (t :: tasks) (t :: done) finished := by
  have hstep : pending journal (t :: tasks) = t :: pending journal tasks := by
    simp [pending, ht]
  constructor
  · rw [hstep]
    exact (List.prefix_cons_inj t).mpr h.isPrefix
  · intro hf
    rw [hstep, h.complete hf]

theorem stop (h : ¬ finished) : Progress journal tasks [] finished :=
  ⟨List.nil_prefix, fun hf => (h hf).elim⟩

end Progress

structure Pass (α : Type) where
  tasks : List α
  before : List α
  done : List α
  after : List α
  finished : Prop

namespace Pass

variable {p : Pass α}

structure Valid (p : Pass α) : Prop where
  nodup : p.tasks.Nodup
  progress : Progress p.before p.tasks p.done p.finished
  after_eq : p.after = p.before ++ p.done

namespace Valid

variable (h : p.Valid)

include h

theorem nodup_after (hbefore : p.before.Nodup) : p.after.Nodup := by
  have hpending : (pending p.before p.tasks).Nodup := h.nodup.filter _
  rw [h.after_eq]
  apply List.Nodup.append hbefore (hpending.sublist h.progress.isPrefix.sublist)
  intro t hold hnew
  have hmem := List.mem_filter.mp (h.progress.isPrefix.subset hnew)
  exact of_decide_eq_true hmem.2 hold

/-- A finished pass leaves nothing to do. -/
theorem mem_after (hf : p.finished) (ht : t ∈ p.tasks) : t ∈ p.after := by
  rw [h.after_eq, h.progress.complete hf, List.mem_append]
  by_cases hold : t ∈ p.before
  · exact .inl hold
  · exact .inr (List.mem_filter.mpr ⟨ht, decide_eq_true hold⟩)

end Valid

/-- Each pass starts with the journal that the one before it left. -/
def Linked : List α → List (Pass α) → Prop
  | _, [] => True
  | journal, p :: ps => p.before = journal ∧ Linked p.after ps

section Linked

variable {pre post : List (Pass α)}

/-- The journal is what all passes so far have done. -/
theorem Linked.before_eq (h : Linked journal (pre ++ p :: post)) (hvalid : ∀ q ∈ pre, q.Valid) :
    p.before = journal ++ pre.flatMap Pass.done := by
  induction pre generalizing journal with
  | nil => simpa using h.1
  | cons q pre ih =>
    obtain ⟨hq, hpre⟩ := List.forall_mem_cons.mp hvalid
    rw [ih h.2 hpre, hq.after_eq, h.1, List.flatMap_cons, List.append_assoc]

theorem Linked.after_eq (h : Linked journal (pre ++ p :: post)) (hvalid : ∀ q ∈ pre, q.Valid)
    (hp : p.Valid) : p.after = journal ++ (pre ++ [p]).flatMap Pass.done := by
  rw [hp.after_eq, h.before_eq hvalid]
  simp

/-- No task is done twice. -/
theorem Linked.nodup_after (h : Linked journal (pre ++ p :: post)) (hvalid : ∀ q ∈ pre, q.Valid)
    (hp : p.Valid) (hjournal : journal.Nodup) : p.after.Nodup := by
  apply hp.nodup_after
  induction pre generalizing journal with
  | nil => exact h.1 ▸ hjournal
  | cons q pre ih =>
    obtain ⟨hq, hpre⟩ := List.forall_mem_cons.mp hvalid
    exact ih h.2 hpre (hq.nodup_after (h.1 ▸ hjournal))

/-- After a finished pass the tasks of that pass stay done. -/
theorem Linked.mem_before (h : Linked journal (pre ++ p :: post)) (hvalid : ∀ q ∈ pre, q.Valid)
    {q : Pass α} (hq : q ∈ pre) (hf : q.finished) (ht : t ∈ q.tasks) : t ∈ p.before := by
  obtain ⟨front, back, rfl⟩ := List.append_of_mem hq
  have hback : Linked journal (front ++ q :: (back ++ p :: post)) := by simpa using h
  have hfront (r : Pass α) (hr : r ∈ front) : r.Valid := hvalid r (List.mem_append_left _ hr)
  have hafter := hback.after_eq hfront (hvalid q hq)
  have hmem := (hvalid q hq).mem_after hf ht
  rw [h.before_eq hvalid]
  rw [hafter] at hmem
  simp only [List.flatMap_append, List.flatMap_cons, List.flatMap_nil, List.append_nil,
    List.mem_append] at hmem ⊢
  tauto

end Linked
end Pass
end Collections
