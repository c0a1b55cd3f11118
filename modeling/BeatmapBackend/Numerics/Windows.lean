import BeatmapBackend.Numerics.OrderStatistics
import Mathlib.Algebra.BigOperators.Group.List.Basic
import Mathlib.Algebra.Order.BigOperators.Group.List

/-! Windows of an array whose edges are repeated, and the medians taken over them. -/
namespace Numerics

section Median

variable {K : Type} [LinearOrder K] [Zero K] {xs : List K} {size i : ℕ} {x : K}

/-- The `size` entries around index `i`, an index outside the array moved to the nearest edge. -/
def window (xs : List K) (size i : ℕ) : List K :=
  (List.range size).map fun k : ℕ => nearest 0 xs ((i : ℤ) - (size / 2 : ℕ) + k)

omit [LinearOrder K] in
@[simp] theorem length_window (xs : List K) (size i : ℕ) : (window xs size i).length = size := by
  simp [window]

omit [LinearOrder K] in
theorem window_subset (hi : i < xs.length) : window xs size i ⊆ xs := by
  intro x hx
  obtain ⟨k, -, rfl⟩ := List.mem_map.mp hx
  unfold nearest
  rw [List.getD_eq_getElem _ _ (by omega)]
  exact List.getElem_mem _

theorem medianFilter_eq (xs : List K) (size : ℕ) : medianFilter 0 xs size =
    (List.range xs.length).map fun i => smallest (window xs size i) (size / 2) := by
  simp only [medianFilter, smallest, window, List.bind_eq_flatMap, List.pure_def,
    ← List.map_eq_flatMap, List.map_map, Function.comp_def]

/-- Fewer nonzero entries than half of a nonnegative window leave a zero in the middle. -/
theorem smallest_window_eq_zero (hnonneg : ∀ x ∈ xs, 0 ≤ x) (hi : i < xs.length)
    (hsparse : 2 * (window xs size i).countP (fun x => decide (x ≠ 0)) < size) :
    smallest (window xs size i) (size / 2) = 0 := by
  have hpos (x : K) (hx : x ∈ window xs size i) : 0 ≤ x := hnonneg x (window_subset hi hx)
  have hmiddle : size / 2 < (window xs size i).length := by
    rw [length_window]
    omega
  apply le_antisymm
  · have hsplit := (window xs size i).length_eq_countP_add_countP fun x => decide (x ≠ 0)
    have hzeros : (window xs size i).countP (fun x => decide (¬ decide (x ≠ 0) = true)) =
        (window xs size i).countP fun x => decide (x ≤ 0) := by
      apply List.countP_congr
      intro x hx
      simp [(hpos x hx).ge_iff_eq']
    rw [length_window, hzeros] at hsplit
    rw [smallest_le_iff hmiddle]
    omega
  · apply hpos
    rw [smallest_eq_getElem (by simpa using hmiddle)]
    exact (sort_perm _).subset (List.getElem_mem _)

/-- Every window of the array has fewer nonzero entries than half its size. -/
def Sparse (xs : List K) (size : ℕ) : Prop :=
  ∀ i < xs.length, 2 * (window xs size i).countP (fun x => decide (x ≠ 0)) < size

instance (xs : List K) (size : ℕ) : Decidable (Sparse xs size) := by
  unfold Sparse
  infer_instance

theorem medianFilter_eq_zeros (hnonneg : ∀ x ∈ xs, 0 ≤ x) (hsparse : Sparse xs size) :
    medianFilter 0 xs size = List.replicate xs.length 0 := by
  rw [medianFilter_eq, List.eq_replicate_iff]
  constructor
  · simp
  · intro x hx
    obtain ⟨i, hi, rfl⟩ := List.mem_map.mp hx
    rw [List.mem_range] at hi
    exact smallest_window_eq_zero hnonneg hi (hsparse i hi)

end Median

theorem mean_nonneg {K : Type} [Field K] [LinearOrder K] [IsStrictOrderedRing K] {xs : List K}
    (h : ∀ x ∈ xs, 0 ≤ x) : 0 ≤ mean xs :=
  div_nonneg (List.sum_nonneg h) (Nat.cast_nonneg _)

end Numerics
