import Mathlib.Algebra.BigOperators.Group.Finset.Basic
import Mathlib.Algebra.BigOperators.Intervals
import Mathlib.Algebra.Order.Field.Basic
import Mathlib.Tactic.Linarith
import Mathlib.Tactic.Ring

/-! Hat functions over increasing knots. A hat is the difference of two neighbouring ramps, so the
hats of a row of knots add up to the difference of the outermost ramps. -/
namespace Numerics

variable {K : Type} [Field K] [LinearOrder K]

def ramp (a b x : K) : K := min (max ((x - a) / (b - a)) 0) 1

/-- Rises from zero at `a` to one at `b`, and falls to zero again at `c`. -/
def hat (a b c x : K) : K := ramp a b x - ramp b c x

variable [IsStrictOrderedRing K] {a b c x : K}

section Ramp

theorem ramp_nonneg : 0 ≤ ramp a b x := le_min (le_max_right _ _) zero_le_one

omit [IsStrictOrderedRing K] in
theorem ramp_le_one : ramp a b x ≤ 1 := min_le_right _ _

theorem ramp_of_le (hab : a < b) (hx : x ≤ a) : ramp a b x = 0 := by
  have h : (x - a) / (b - a) ≤ 0 :=
    div_nonpos_of_nonpos_of_nonneg (sub_nonpos.mpr hx) (sub_pos.mpr hab).le
  rw [ramp, max_eq_right h, min_eq_left zero_le_one]

theorem ramp_of_ge (hab : a < b) (hx : b ≤ x) : ramp a b x = 1 := by
  have h : 1 ≤ (x - a) / (b - a) := by
    rw [one_le_div (sub_pos.mpr hab)]
    linarith
  rw [ramp, min_eq_right (h.trans (le_max_left _ _))]

theorem ramp_of_mem (hab : a < b) (ha : a ≤ x) (hb : x ≤ b) : ramp a b x = (x - a) / (b - a) := by
  have hpos := sub_pos.mpr hab
  have h0 : 0 ≤ (x - a) / (b - a) := div_nonneg (sub_nonneg.mpr ha) hpos.le
  have h1 : (x - a) / (b - a) ≤ 1 := by
    rw [div_le_one hpos]
    linarith
  rw [ramp, max_eq_left h0, min_eq_left h1]

end Ramp

section Hat

theorem hat_le_one : hat a b c x ≤ 1 := by
  rw [hat]
  linarith [ramp_le_one (a := a) (b := b) (x := x), ramp_nonneg (a := b) (b := c) (x := x)]

variable (hab : a < b) (hbc : b < c)

include hab hbc

theorem hat_of_le (hx : x ≤ a) : hat a b c x = 0 := by
  rw [hat, ramp_of_le hab hx, ramp_of_le hbc (hx.trans hab.le), sub_zero]

theorem hat_of_ge (hx : c ≤ x) : hat a b c x = 0 := by
  rw [hat, ramp_of_ge hab (hbc.le.trans hx), ramp_of_ge hbc hx, sub_self]

theorem hat_up (ha : a ≤ x) (hb : x ≤ b) : hat a b c x = (x - a) / (b - a) := by
  rw [hat, ramp_of_mem hab ha hb, ramp_of_le hbc hb, sub_zero]

theorem hat_down (hb : b ≤ x) (hc : x ≤ c) : hat a b c x = (c - x) / (c - b) := by
  have hne : c - b ≠ 0 := (sub_pos.mpr hbc).ne'
  rw [hat, ramp_of_ge hab hb, ramp_of_mem hbc hb hc, eq_div_iff hne, sub_mul, one_mul,
    div_mul_cancel₀ _ hne]
  ring

theorem hat_pos_iff : 0 < hat a b c x ↔ a < x ∧ x < c := by
  rcases le_or_gt x a with hxa | hxa
  · rw [hat_of_le hab hbc hxa]
    exact iff_of_false (lt_irrefl 0) fun h => h.1.not_ge hxa
  rcases le_or_gt c x with hcx | hcx
  · rw [hat_of_ge hab hbc hcx]
    exact iff_of_false (lt_irrefl 0) fun h => h.2.not_ge hcx
  apply iff_of_true _ ⟨hxa, hcx⟩
  rcases le_total x b with hxb | hbx
  · rw [hat_up hab hbc hxa.le hxb]
    exact div_pos (sub_pos.mpr hxa) (sub_pos.mpr hab)
  · rw [hat_down hab hbc hbx hcx.le]
    exact div_pos (sub_pos.mpr hcx) (sub_pos.mpr hbc)

theorem hat_nonneg : 0 ≤ hat a b c x := by
  by_cases h : a < x ∧ x < c
  · exact ((hat_pos_iff hab hbc).mpr h).le
  · rcases le_or_gt x a with hxa | hxa
    · exact (hat_of_le hab hbc hxa).ge
    · exact (hat_of_ge hab hbc (not_lt.mp fun hcx => h ⟨hxa, hcx⟩)).ge

theorem hat_eq_one_iff : hat a b c x = 1 ↔ x = b := by
  constructor
  · intro h
    obtain ⟨hax, hxc⟩ := (hat_pos_iff hab hbc).mp (h ▸ one_pos)
    rcases le_total x b with hxb | hbx
    · rw [hat_up hab hbc hax.le hxb, div_eq_one_iff_eq (sub_pos.mpr hab).ne'] at h
      linarith
    · rw [hat_down hab hbc hbx hxc.le, div_eq_one_iff_eq (sub_pos.mpr hbc).ne'] at h
      linarith
  · rintro rfl
    rw [hat_up hab hbc hab.le le_rfl, div_self (sub_pos.mpr hab).ne']

end Hat

section Knots

variable {knots : ℕ → K} {n : ℕ}

omit [IsStrictOrderedRing K] in
/-- The hats of a row of knots telescope. -/
theorem sum_hat (knots : ℕ → K) (n : ℕ) (x : K) :
    (∑ m ∈ Finset.range n, hat (knots m) (knots (m + 1)) (knots (m + 2)) x) =
      ramp (knots 0) (knots 1) x - ramp (knots n) (knots (n + 1)) x := by
  simp only [hat]
  exact Finset.sum_range_sub' (fun m => ramp (knots m) (knots (m + 1)) x) n

/-- Between the second knot and the last but one the hats are a partition of unity. -/
theorem sum_hat_eq_one (h0 : knots 0 < knots 1) (hn : knots n < knots (n + 1))
    (hx : knots 1 ≤ x) (hx' : x ≤ knots n) :
    (∑ m ∈ Finset.range n, hat (knots m) (knots (m + 1)) (knots (m + 2)) x) = 1 := by
  rw [sum_hat, ramp_of_ge h0 hx, ramp_of_le hn hx', sub_zero]

/-- At most two neighbouring hats are positive at one place. -/
theorem card_hat_pos_le (hknots : ∀ i j, i < j → j < n + 2 → knots i < knots j) (x : K) :
    ((Finset.range n).filter fun m =>
      0 < hat (knots m) (knots (m + 1)) (knots (m + 2)) x).card ≤ 2 := by
  have hpos (m : ℕ) (hm : m < n) :
      0 < hat (knots m) (knots (m + 1)) (knots (m + 2)) x ↔ knots m < x ∧ x < knots (m + 2) :=
    hat_pos_iff (hknots _ _ (by omega) (by omega)) (hknots _ _ (by omega) (by omega))
  set positive := (Finset.range n).filter fun m =>
    0 < hat (knots m) (knots (m + 1)) (knots (m + 2)) x with hset
  rcases positive.eq_empty_or_nonempty with hempty | hne
  · simp [hempty]
  · obtain ⟨hlow, hlow'⟩ := Finset.mem_filter.mp (positive.min'_mem hne)
    have hlow := Finset.mem_range.mp hlow
    have hsub : positive ⊆ {positive.min' hne, positive.min' hne + 1} := by
      intro m hm
      have hge := positive.min'_le m hm
      obtain ⟨hm, hm'⟩ := Finset.mem_filter.mp hm
      have hm := Finset.mem_range.mp hm
      have hlt : ¬ positive.min' hne + 2 ≤ m := by
        intro hle
        have hend := ((hpos _ hlow).mp hlow').2
        have hstart := ((hpos _ hm).mp hm').1
        rcases hle.lt_or_eq with hlt | heq
        · exact lt_asymm (hend.trans (hknots _ _ hlt (by omega))) hstart
        · exact lt_asymm (heq ▸ hend) hstart
      rw [Finset.mem_insert, Finset.mem_singleton]
      omega
    exact (Finset.card_le_card hsub).trans Finset.card_le_two

end Knots
end Numerics
