import BeatmapBackend.Collections.Covering
import Mathlib.Algebra.Order.Group.Defs
import Mathlib.Data.List.Induction
import Mathlib.Data.Set.Insert

/-! Points that arrive in order are grouped by a window: a point opens a new cluster unless it is
within the window of the one that opened the last. The openers are determined by the set of the
points, and no fewer windows cover it. -/
namespace Collections

variable {K : Type} [AddCommGroup K] [LinearOrder K] {S : Set K} {window : K} {xs ys : List K}

structure Clusters (S : Set K) (window : K) (xs : List K) : Prop where
  apart : xs.Pairwise fun a b => window < b - a
  opens : ∀ a ∈ xs, a ∈ S
  covers : ∀ t ∈ S, ∃ a ∈ xs, a ≤ t ∧ t - a ≤ window

def join (window : K) (xs : List K) (t : K) : List K :=
  if xs.getLast?.all fun last => window < t - last then xs ++ [t] else xs

namespace Clusters

/-- The points beyond the first cluster form the others. -/
theorem tail {a : K} (h : Clusters S window (a :: xs)) :
    Clusters {t | t ∈ S ∧ window < t - a} window xs := by
  obtain ⟨hfirst, hrest⟩ := List.pairwise_cons.mp h.apart
  refine ⟨hrest, fun b hb => ⟨h.opens b (List.mem_cons_of_mem a hb), hfirst b hb⟩, ?_⟩
  rintro t ⟨ht, hbeyond⟩
  obtain ⟨b, hb, hbt, hnear⟩ := h.covers t ht
  rcases List.mem_cons.mp hb with rfl | hb
  · exact absurd hbeyond (not_lt.mpr hnear)
  · exact ⟨b, hb, hbt, hnear⟩

theorem eq_nil (h : Clusters S window xs) (hS : S = ∅) : xs = [] :=
  List.eq_nil_iff_forall_not_mem.mpr fun a ha => by simpa [hS] using h.opens a ha

theorem empty (h : Clusters S window []) : S = ∅ :=
  Set.eq_empty_of_forall_notMem fun t ht => by simpa using h.covers t ht

variable [IsOrderedAddMonoid K]

theorem sorted (h : Clusters S window xs) (hwindow : 0 ≤ window) : xs.Pairwise (· < ·) :=
  h.apart.imp fun hlt => sub_pos.mp (hwindow.trans_lt hlt)

theorem head_le {a : K} (h : Clusters S window (a :: xs)) (hwindow : 0 ≤ window) :
    ∀ t ∈ S, a ≤ t := by
  intro t ht
  obtain ⟨b, hb, hbt, -⟩ := h.covers t ht
  rcases List.mem_cons.mp hb with rfl | hb
  · exact hbt
  · exact ((List.pairwise_cons.mp (h.sorted hwindow)).1 b hb).le.trans hbt

theorem unique (hxs : Clusters S window xs) (hys : Clusters S window ys) (hwindow : 0 ≤ window) :
    xs = ys := by
  induction xs generalizing S ys with
  | nil => exact (hys.eq_nil hxs.empty).symm
  | cons a xs ih =>
    cases ys with
    | nil => exact hxs.eq_nil hys.empty
    | cons b ys =>
      have hab : a ≤ b := hxs.head_le hwindow b (hys.opens b List.mem_cons_self)
      have hba : b ≤ a := hys.head_le hwindow a (hxs.opens a List.mem_cons_self)
      obtain rfl := le_antisymm hab hba
      rw [ih hxs.tail hys.tail]

/-- A list of windows that covers the points has one for each cluster. -/
theorem length_le (h : Clusters S window xs) {starts : List K}
    (hcover : ∀ t ∈ S, ∃ s ∈ starts, s ≤ t ∧ t - s ≤ window) : xs.length ≤ starts.length := by
  refine length_le_of_covers (h.apart.imp fun {a b} hapart s ha hb => ?_)
    fun a ha => hcover a (h.opens a ha)
  have hle : b - a ≤ b - s := sub_le_sub_left ha.1 b
  exact absurd (hle.trans hb.2) (not_le.mpr hapart)

/-- A point that is not before the others joins the last cluster or opens one. -/
theorem step (h : Clusters S window xs) (hwindow : 0 ≤ window) {t : K} (hlast : ∀ s ∈ S, s ≤ t) :
    Clusters (insert t S) window (join window xs t) := by
  unfold join
  rcases List.eq_nil_or_concat xs with rfl | ⟨init, last, rfl⟩
  · obtain rfl := h.empty
    exact ⟨List.pairwise_singleton _ t, by simp, by simpa using hwindow⟩
  rw [List.concat_eq_append] at h ⊢
  have hmem : last ∈ init ++ [last] := List.mem_append_right _ List.mem_cons_self
  have hle : last ≤ t := hlast last (h.opens last hmem)
  rw [List.getLast?_concat]
  simp only [Option.all_some, decide_eq_true_eq]
  split_ifs with hnew
  · refine ⟨List.pairwise_append.mpr ⟨h.apart, List.pairwise_singleton _ t, ?_⟩, ?_, ?_⟩
    · intro a ha b hb
      obtain rfl := List.mem_singleton.mp hb
      have hal : a ≤ last := by
        rcases List.mem_append.mp ha with ha | ha
        · exact ((List.pairwise_append.mp (h.sorted hwindow)).2.2 a ha last
            List.mem_cons_self).le
        · exact (List.mem_singleton.mp ha).le
      exact hnew.trans_le (sub_le_sub_left hal b)
    · intro a ha
      rcases List.mem_append.mp ha with ha | ha
      · exact Set.mem_insert_of_mem t (h.opens a ha)
      · exact List.mem_singleton.mp ha ▸ Set.mem_insert t S
    · rintro s (rfl | hs)
      · exact ⟨s, List.mem_append_right _ List.mem_cons_self, le_rfl, by simpa using hwindow⟩
      · obtain ⟨a, ha, hnear⟩ := h.covers s hs
        exact ⟨a, List.mem_append_left _ ha, hnear⟩
  · refine ⟨h.apart, fun a ha => Set.mem_insert_of_mem t (h.opens a ha), ?_⟩
    rintro s (rfl | hs)
    · exact ⟨last, hmem, hle, not_lt.mp hnew⟩
    · exact h.covers s hs

theorem foldl (hwindow : 0 ≤ window) (hxs : xs.Pairwise (· ≤ ·)) :
    Clusters {t | t ∈ xs} window (xs.foldl (join window) []) := by
  induction xs using List.reverseRecOn with
  | nil => exact ⟨List.Pairwise.nil, by simp, by simp⟩
  | append_singleton xs t ih =>
    obtain ⟨hinit, -, hlast⟩ := List.pairwise_append.mp hxs
    have hset : {s | s ∈ xs ++ [t]} = insert t {s | s ∈ xs} := by
      ext s
      simp [or_comm]
    rw [List.foldl_concat, hset]
    exact (ih hinit).step hwindow fun s hs => hlast s hs t List.mem_cons_self

end Clusters
end Collections
