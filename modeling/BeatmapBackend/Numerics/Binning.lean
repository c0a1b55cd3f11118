import BeatmapBackend.Numerics.Searching

/-! The bins between the inner quantiles of a list: when its entries are distinct, no bin gets
two entries more than another. -/
namespace Numerics

section Bins

variable {K : Type} [LinearOrder K] {edges : List K} {x : K} {k : ℕ}

theorem digitize_le_iff (hedges : edges.SortedLE) (hk : k < edges.length) :
    digitize x edges ≤ k ↔ x < edges[k] := by
  rw [← not_lt, digitize, lt_searchsortedRight_iff hedges hk, not_le]

theorem countP_lt_succ (bins : List ℕ) (k : ℕ) :
    bins.countP (fun bin => decide (bin < k + 1)) =
      bins.countP (fun bin => decide (bin < k)) + bins.count k := by
  induction bins with
  | nil => rfl
  | cons bin bins ih =>
    simp only [List.countP_cons, List.count_cons, ih, decide_eq_true_eq, beq_iff_eq]
    split_ifs <;> omega

end Bins

section Quantiles

variable {K : Type} [Field K] [LinearOrder K] [IsStrictOrderedRing K] [FloorRing K] {xs : List K}
  {n j a b : ℕ}

/-- The quantiles that cut a list into `n` bins. -/
def innerQuantiles (xs : List K) (n : ℕ) : List K :=
  (List.range (n - 1)).map fun i => quantile xs (((i + 1 : ℕ) : K) / n)

omit [IsStrictOrderedRing K] in
@[simp] theorem length_innerQuantiles : (innerQuantiles xs n).length = n - 1 := by
  simp [innerQuantiles]

theorem share_mem (hj : j ≤ n) : (0 : K) ≤ (j : K) / n ∧ (j : K) / n ≤ 1 :=
  ⟨by positivity, div_le_one_of_le₀ (by exact_mod_cast hj) (Nat.cast_nonneg n)⟩

theorem sortedLE_innerQuantiles (hxs : xs ≠ []) : (innerQuantiles xs n).SortedLE := by
  apply List.Pairwise.sortedLE
  rw [innerQuantiles, List.pairwise_map]
  apply List.pairwise_lt_range.imp_of_mem
  intro i j hi hj hij
  rw [List.mem_range] at hi hj
  have hle : ((i + 1 : ℕ) : K) ≤ (j + 1 : ℕ) := by exact_mod_cast Nat.succ_le_succ hij.le
  exact quantile_mono hxs (share_mem (by omega)).1
    (div_le_div_of_nonneg_right hle (Nat.cast_nonneg n)) (share_mem (by omega)).2

/-- The entries in the bins before one, among distinct entries. -/
theorem countP_digitize_lt (hxs : xs.Nodup) (hne : xs ≠ []) (hj : 0 < j) (hjn : j < n) :
    xs.countP (fun x => decide (digitize x (innerQuantiles xs n) < j)) =
      ⌈(j * (xs.length - 1 : ℕ) : K) / n⌉₊ := by
  have hin : j - 1 < (innerQuantiles xs n).length := by
    rw [length_innerQuantiles]
    omega
  have hedge : (innerQuantiles xs n)[j - 1] = quantile xs ((j : K) / n) := by
    simp only [innerQuantiles, List.getElem_map, List.getElem_range, Nat.sub_add_cancel hj]
  have hbelow (x : K) : digitize x (innerQuantiles xs n) < j ↔ x < quantile xs ((j : K) / n) := by
    rw [← hedge, ← digitize_le_iff (sortedLE_innerQuantiles hne) hin]
    omega
  obtain ⟨h0, h1⟩ := share_mem (K := K) hjn.le
  simp only [hbelow]
  rw [countP_lt_quantile hxs hne h0 h1, position, div_mul_eq_mul_div]

/-- The number of entries before a bin is within one of its share, in multiples of `1 / n`. -/
theorem countP_digitize_lt_bounds (hxs : xs.Nodup) (hne : xs ≠ []) (hj : j ≤ n) (hn : 0 < n) :
    j * (xs.length - 1) ≤
        n * xs.countP (fun x => decide (digitize x (innerQuantiles xs n) < j)) ∧
      n * xs.countP (fun x => decide (digitize x (innerQuantiles xs n) < j)) ≤
        j * (xs.length - 1) + n ∧
      (j < n → n * xs.countP (fun x => decide (digitize x (innerQuantiles xs n) < j)) <
        j * (xs.length - 1) + n) := by
  have hlen := List.length_pos_iff.mpr hne
  have hn' : (0 : K) < n := by exact_mod_cast hn
  rcases Nat.eq_zero_or_pos j with rfl | hpos
  · simp [hn]
  rcases hj.lt_or_eq with hlt | rfl
  · rw [countP_digitize_lt hxs hne hpos hlt]
    set share : K := (j * (xs.length - 1 : ℕ) : K) / n with hshare
    have hsplit : n * share = (j * (xs.length - 1) : ℕ) := by
      rw [hshare, mul_div_cancel₀ _ hn'.ne']
      push_cast
      rfl
    have hlow : ((j * (xs.length - 1) : ℕ) : K) ≤ (n * ⌈share⌉₊ : ℕ) := by
      rw [← hsplit]
      push_cast
      exact mul_le_mul_of_nonneg_left (Nat.le_ceil share) hn'.le
    have hhigh : ((n * ⌈share⌉₊ : ℕ) : K) < (j * (xs.length - 1) + n : ℕ) := by
      have hceil := Nat.ceil_lt_add_one (show (0 : K) ≤ share by positivity)
      calc ((n * ⌈share⌉₊ : ℕ) : K) = n * ⌈share⌉₊ := by push_cast; rfl
        _ < n * (share + 1) := mul_lt_mul_of_pos_left hceil hn'
        _ = (j * (xs.length - 1) + n : ℕ) := by rw [mul_add, hsplit]; push_cast; ring
    have hhigh' : n * ⌈share⌉₊ < j * (xs.length - 1) + n := by exact_mod_cast hhigh
    exact ⟨by exact_mod_cast hlow, hhigh'.le, fun _ => hhigh'⟩
  · have hall : xs.countP (fun x => decide (digitize x (innerQuantiles xs j) < j)) =
        xs.length := by
      apply List.countP_eq_length.mpr
      intro x _
      have hle := digitize_le_length x (innerQuantiles xs j)
      rw [length_innerQuantiles] at hle
      exact decide_eq_true (by omega)
    obtain ⟨m, hm⟩ := Nat.exists_eq_succ_of_ne_zero hlen.ne'
    rw [hall, hm]
    refine ⟨?_, ?_, fun hlt => (lt_irrefl _ hlt).elim⟩ <;> simp [Nat.mul_succ]

/-- A bin gets the whole part of its share, or one entry more. -/
theorem count_digitize_bounds (hxs : xs.Nodup) (hne : xs ≠ []) (ha : a < n) :
    (xs.length - 1) / n ≤ (xs.map fun x => digitize x (innerQuantiles xs n)).count a ∧
      (xs.map fun x => digitize x (innerQuantiles xs n)).count a ≤ (xs.length - 1) / n + 1 := by
  have hn : 0 < n := by omega
  have hnext := countP_lt_succ (xs.map fun x => digitize x (innerQuantiles xs n)) a
  simp only [List.countP_map, Function.comp_def] at hnext
  obtain ⟨hbefore, -, hbefore'⟩ := countP_digitize_lt_bounds hxs hne ha.le hn
  obtain ⟨hupto, hupto', -⟩ := countP_digitize_lt_bounds hxs hne (Nat.succ_le_of_lt ha) hn
  rw [hnext] at hupto hupto'
  have hbefore' := hbefore' ha
  set here := (xs.map fun x => digitize x (innerQuantiles xs n)).count a
  set before := xs.countP fun x => decide (digitize x (innerQuantiles xs n) < a)
  set m := xs.length - 1
  rw [Nat.mul_add, Nat.succ_mul] at hupto hupto'
  have hdiv := Nat.div_add_mod m n
  have hmod := Nat.mod_lt m hn
  constructor
  · have hlt : n * (m / n) < n * (here + 1) := by
      rw [Nat.mul_succ]
      omega
    exact Nat.lt_succ_iff.mp (Nat.lt_of_mul_lt_mul_left hlt)
  · have hlt : n * here < n * (m / n + 2) := by
      rw [Nat.mul_add]
      omega
    exact Nat.lt_succ_iff.mp (Nat.lt_of_mul_lt_mul_left hlt)

theorem count_digitize_le_add_one (hxs : xs.Nodup) (hne : xs ≠ []) (ha : a < n) (hb : b < n) :
    (xs.map fun x => digitize x (innerQuantiles xs n)).count a ≤
      (xs.map fun x => digitize x (innerQuantiles xs n)).count b + 1 := by
  obtain ⟨-, hle⟩ := count_digitize_bounds hxs hne ha
  obtain ⟨hge, -⟩ := count_digitize_bounds hxs hne hb
  omega

end Quantiles
end Numerics
