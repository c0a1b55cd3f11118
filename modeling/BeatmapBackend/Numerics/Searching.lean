import BeatmapBackend.Numerics.OrderStatistics

/-! Searching a sorted list, and the order of the indices of a list by their entries: which
positions a search skips, and which indices the end of such an order keeps. -/
namespace Numerics

section Search

variable {K : Type} [LinearOrder K] {xs : List K} {x y : K} {k : ℕ}

/-- A search stops at the first entry that a property of small entries fails for. -/
theorem lt_findIdx_not_iff {p : K → Bool} (hp : ∀ y z, z ≤ y → p y → p z)
    (hxs : xs.SortedLE) (hk : k < xs.length) : k < xs.findIdx (fun y => !p y) ↔ p xs[k] := by
  rw [List.lt_findIdx_iff]
  constructor
  · rintro ⟨hlt, hall⟩
    simpa using hall k le_rfl
  · intro hpk
    refine ⟨hk, fun j hj => ?_⟩
    simpa using hp _ _ (hxs.getElem_le_getElem_of_le hj) hpk

theorem lt_searchsortedLeft_iff (hxs : xs.SortedLE) (hk : k < xs.length) :
    k < searchsortedLeft xs x ↔ xs[k] < x := by
  have hp (y z : K) (hzy : z ≤ y) (hy : decide (y < x)) : decide (z < x) :=
    decide_eq_true (hzy.trans_lt (of_decide_eq_true hy))
  rw [← decide_eq_true_iff (p := xs[k] < x), ← lt_findIdx_not_iff hp hxs hk, searchsortedLeft]
  simp only [← decide_not, not_lt]

theorem lt_searchsortedRight_iff (hxs : xs.SortedLE) (hk : k < xs.length) :
    k < searchsortedRight xs x ↔ xs[k] ≤ x := by
  have hp (y z : K) (hzy : z ≤ y) (hy : decide (y ≤ x)) : decide (z ≤ x) :=
    decide_eq_true (hzy.trans (of_decide_eq_true hy))
  rw [← decide_eq_true_iff (p := xs[k] ≤ x), ← lt_findIdx_not_iff hp hxs hk, searchsortedRight]
  simp only [← decide_not, not_le]

/-- Larger values are not put into lower bins, whatever the edges. -/
theorem digitize_mono (edges : List K) (h : x ≤ y) : digitize x edges ≤ digitize y edges := by
  apply List.findIdx_le_findIdx
  intro e _ he
  exact decide_eq_true (h.trans_lt (of_decide_eq_true he))

end Search

section Order

variable {α : Type} [LinearOrder α] {xs : List α} {order : List ℕ} {d : α} {k i j : ℕ}

/-- The indices of a list, ordered by their entries; equal entries may come in any order. -/
structure IsArgsort (d : α) (xs : List α) (order : List ℕ) : Prop where
  perm : order.Perm (List.range xs.length)
  sorted : order.Pairwise fun i j => xs.getD i d ≤ xs.getD j d

/-- The last `k` indices of an order: those of the greatest entries. -/
def last (order : List ℕ) (k : ℕ) : List ℕ := order.drop (order.length - k)

namespace IsArgsort

theorem length_eq (h : IsArgsort d xs order) : order.length = xs.length := by
  simpa using h.perm.length_eq

theorem mem_iff (h : IsArgsort d xs order) : i ∈ order ↔ i < xs.length := by
  rw [h.perm.mem_iff, List.mem_range]

theorem nodup (h : IsArgsort d xs order) : order.Nodup :=
  h.perm.nodup_iff.mpr List.nodup_range

theorem length_last (h : IsArgsort d xs order) : (last order k).length = min k xs.length := by
  rw [last, List.length_drop, h.length_eq]
  omega

theorem nodup_last (h : IsArgsort d xs order) : (last order k).Nodup :=
  h.nodup.sublist (List.drop_sublist _ _)

theorem lt_of_mem_last (h : IsArgsort d xs order) (hi : i ∈ last order k) : i < xs.length :=
  h.mem_iff.mp (List.mem_of_mem_drop hi)

/-- What is left out is nowhere greater than what is kept. -/
theorem getD_le_of_notMem (h : IsArgsort d xs order) (hi : i < xs.length)
    (hout : i ∉ last order k) (hj : j ∈ last order k) : xs.getD i d ≤ xs.getD j d := by
  have hsplit := h.sorted
  rw [← List.take_append_drop (order.length - k) order, List.pairwise_append] at hsplit
  have hmem : i ∈ order.take (order.length - k) ++ last order k := by
    rw [last, List.take_append_drop]
    exact h.mem_iff.mpr hi
  exact hsplit.2.2 i ((List.mem_append.mp hmem).resolve_right hout) j hj

/-- When enough entries have a property of great entries, all that are kept have it. -/
theorem last_of_countP (h : IsArgsort d xs order) {p : α → Bool}
    (hp : ∀ y z, y ≤ z → p y → p z) (hcount : min k xs.length ≤ xs.countP p)
    (hj : j ∈ last order k) : p (xs.getD j d) := by
  by_contra hnot
  have hout (i : ℕ) (hi : i < xs.length) (hpi : p (xs.getD i d)) : i ∈ (last order k).erase j := by
    by_cases hmem : i ∈ last order k
    · refine (h.nodup_last.mem_erase_iff).mpr ⟨fun he => ?_, hmem⟩
      exact hnot (he ▸ hpi)
    · exact (hnot (hp _ _ (h.getD_le_of_notMem hi hmem hj) hpi)).elim
  have hle : xs.countP p ≤ ((last order k).erase j).length := by
    rw [countP_eq_card]
    apply (Finset.card_le_card _).trans (List.toFinset_card_le _)
    intro i hi
    obtain ⟨hlt, hany⟩ := Finset.mem_filter.mp hi
    rw [Finset.mem_range] at hlt
    rw [List.mem_toFinset]
    apply hout i hlt
    rw [List.getD_eq_getElem _ _ hlt]
    simpa [List.getElem?_eq_getElem hlt] using hany
  rw [List.length_erase_of_mem hj, h.length_last] at hle
  have hpos := List.length_pos_of_mem hj
  rw [h.length_last] at hpos
  omega

end IsArgsort

def argsortInsertion (d : α) (xs : List α) : List ℕ :=
  (List.range xs.length).insertionSort fun i j => xs.getD i d ≤ xs.getD j d

theorem isArgsort_argsortInsertion (d : α) (xs : List α) :
    IsArgsort d xs (argsortInsertion d xs) := by
  let r (i j : ℕ) : Prop := xs.getD i d ≤ xs.getD j d
  have : Std.Total r := ⟨fun i j => le_total _ _⟩
  have : IsTrans ℕ r := ⟨fun _ _ _ => le_trans⟩
  exact ⟨List.perm_insertionSort r _, List.pairwise_insertionSort r _⟩

end Order
end Numerics
