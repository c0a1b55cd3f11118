import BeatmapBackend.Numerics.Arrays
import Mathlib.Algebra.Order.BigOperators.Group.List
import Mathlib.Data.List.GetD
import Mathlib.Tactic.FieldSimp
import Mathlib.Tactic.Ring

/-! Filters with nonnegative weights, the maximum over neighbouring rows, and the sum of the
rises from one column to another: what each of them does with larger entries. -/
namespace Numerics

section Neighbours

variable {K : Type} [LinearOrder K] {g h : Grid K} {x : K} {i j j' : ℕ}

/-- The maximum is over the row itself and the rows next to it that exist. -/
theorem le_maximumFilter3_iff (hi : i < g.rows) : x ≤ (maximumFilter3 g).entry i j ↔
    ∃ near < g.rows, near ≤ i + 1 ∧ i ≤ near + 1 ∧ x ≤ g.entry near j := by
  unfold maximumFilter3
  rw [le_max_iff, le_max_iff]
  constructor
  · rintro ((hprev | hself) | hnext)
    · exact ⟨i - 1, by omega, by omega, by omega, hprev⟩
    · exact ⟨i, hi, by omega, by omega, hself⟩
    · exact ⟨min (i + 1) (g.rows - 1), by omega, by omega, by omega, hnext⟩
  · rintro ⟨near, hnear, hle, hge, hx⟩
    obtain rfl | rfl | rfl : near = i - 1 ∨ near = i ∨ near = i + 1 := by omega
    · exact Or.inl (Or.inl hx)
    · exact Or.inl (Or.inr hx)
    · rw [min_eq_left (by omega)]
      exact Or.inr hx

theorem maximumFilter3_mono (hrows : g.rows = h.rows)
    (hle : ∀ near < g.rows, g.entry near j ≤ h.entry near j') (hi : i < g.rows) :
    (maximumFilter3 g).entry i j ≤ (maximumFilter3 h).entry i j' := by
  obtain ⟨near, hnear, habove, hbelow, hmax⟩ := (le_maximumFilter3_iff (j := j) hi).mp le_rfl
  exact (le_maximumFilter3_iff (hrows ▸ hi)).mpr
    ⟨near, hrows ▸ hnear, habove, hbelow, hmax.trans (hle near hnear)⟩

end Neighbours

section Weights

variable {K : Type} [Field K] [LinearOrder K] [IsStrictOrderedRing K] {w a b : Grid K}
  {band j j' : ℕ}

def Grid.Nonneg (g : Grid K) : Prop := ∀ i < g.rows, ∀ j < g.cols, 0 ≤ g.entry i j

theorem transposeMul_nonneg (hw : ∀ k band, 0 ≤ w.entry k band)
    (ha : ∀ k < w.rows, 0 ≤ a.entry k j) : 0 ≤ (w.transposeMul a).entry band j := by
  apply List.sum_nonneg
  intro x hx
  obtain ⟨k, hk, rfl⟩ := List.mem_map.mp hx
  exact mul_nonneg (hw k band) (ha k (List.mem_range.mp hk))

theorem transposeMul_mono (hw : ∀ k band, 0 ≤ w.entry k band)
    (hle : ∀ k < w.rows, a.entry k j ≤ b.entry k j') :
    (w.transposeMul a).entry band j ≤ (w.transposeMul b).entry band j' := by
  apply List.sum_le_sum
  intro k hk
  exact mul_le_mul_of_nonneg_left (hle k (List.mem_range.mp hk)) (hw k band)

omit [IsStrictOrderedRing K] in
theorem setColumnSlice_nonneg {start stop col : ℕ} {values : List K}
    (hw : ∀ i j, 0 ≤ w.entry i j) (hvalues : ∀ v ∈ values, 0 ≤ v) (i j : ℕ) :
    0 ≤ (w.setColumnSlice start stop col values).entry i j := by
  unfold Grid.setColumnSlice
  dsimp only
  split
  · rcases Nat.lt_or_ge (i - start) values.length with hlt | hge
    · rw [List.getD_eq_getElem _ _ hlt]
      exact hvalues _ (List.getElem_mem hlt)
    · rw [List.getD_eq_default _ _ hge]
      exact hw i j
  · exact hw i j

theorem linspace_nonneg {x y : K} (hx : 0 ≤ x) (hy : 0 ≤ y) (n : ℕ) :
    ∀ v ∈ linspace x y n, 0 ≤ v := by
  intro v hv
  rw [linspace_eq] at hv
  obtain ⟨i, hi, rfl⟩ := List.mem_map.mp hv
  rw [List.mem_range] at hi
  rcases Nat.eq_zero_or_pos (n - 1) with hzero | hpos
  · simpa [hzero] using hx
  · have hn : (0 : K) < (n - 1 : ℕ) := by exact_mod_cast hpos
    have hle : (i : K) ≤ (n - 1 : ℕ) := by exact_mod_cast Nat.le_sub_one_of_lt hi
    have hi0 : (0 : K) ≤ i := Nat.cast_nonneg i
    have hsum : x + i * ((y - x) / (n - 1 : ℕ)) =
        (x * ((n - 1 : ℕ) - i) + y * i) / (n - 1 : ℕ) := by
      field_simp
      ring
    rw [hsum]
    exact div_nonneg (add_nonneg (mul_nonneg hx (sub_nonneg.mpr hle)) (mul_nonneg hy hi0)) hn.le

end Weights

section Rises

variable {K : Type} [Field K] [LinearOrder K] [IsStrictOrderedRing K] {n : ℕ}
  {now before now' before' : ℕ → K}

/-- How much the first `n` values rise altogether; a fall counts as nothing. -/
def rises (n : ℕ) (now before : ℕ → K) : K :=
  ((List.range n).map fun i => max (now i - before i) 0).sum

theorem rises_nonneg : 0 ≤ rises n now before := by
  apply List.sum_nonneg
  intro x hx
  obtain ⟨i, -, rfl⟩ := List.mem_map.mp hx
  exact le_max_right _ _

theorem rises_mono (hnow : ∀ i < n, now i ≤ now' i) (hbefore : ∀ i < n, before' i ≤ before i) :
    rises n now before ≤ rises n now' before' := by
  apply List.sum_le_sum
  intro i hi
  rw [List.mem_range] at hi
  exact max_le_max_right 0 (sub_le_sub (hnow i hi) (hbefore i hi))

theorem rises_eq_zero_iff : rises n now before = 0 ↔ ∀ i < n, now i ≤ before i := by
  constructor
  · intro hzero i hi
    have hmem : max (now i - before i) 0 ∈
        (List.range n).map fun i => max (now i - before i) 0 :=
      List.mem_map.mpr ⟨i, List.mem_range.mpr hi, rfl⟩
    have hle := List.single_le_sum (fun x hx => by
      obtain ⟨i, -, rfl⟩ := List.mem_map.mp hx
      exact le_max_right _ _) _ hmem
    rw [← rises, hzero] at hle
    exact sub_nonpos.mp ((le_max_left _ _).trans hle)
  · intro hle
    apply List.sum_eq_zero
    intro x hx
    obtain ⟨i, hi, rfl⟩ := List.mem_map.mp hx
    exact max_eq_right (sub_nonpos.mpr (hle i (List.mem_range.mp hi)))

end Rises
end Numerics
