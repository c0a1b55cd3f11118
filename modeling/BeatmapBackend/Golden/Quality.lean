import BeatmapBackend.Collections.Covering
import BeatmapBackend.Golden.Matching
import Mathlib.Algebra.Order.Group.Abs

/-! How much the greedy order of the matcher can cost. It matches at least half of what could be
matched, and all of it when the expected onsets are far enough apart. -/
namespace Golden
open Collections Numerics

variable {K : Type} [Field K] [LinearOrder K]

/-- Some way to pair expected with detected onsets, by their indices. -/
structure Alignment (expected detected : List K) (toleranceS : K) (pairs : List (ℕ × ℕ)) :
    Prop where
  matching : IsMatching pairs
  inside : ∀ pair ∈ pairs, pair.1 < expected.length ∧ pair.2 < detected.length
  within : ∀ pair ∈ pairs, gap expected detected pair.1 pair.2 ≤ toleranceS

/-- No detection can be within the tolerance of two expected onsets. -/
def Separated (expected : List K) (toleranceS : K) : Prop :=
  ∀ i < expected.length, ∀ j < expected.length, i ≠ j →
    2 * toleranceS < |expected.getD i 0 - expected.getD j 0|

variable {expected detected : List K} {toleranceS : K}

theorem length_matched : (compareOnsets expected detected toleranceS).matched.length =
    (matchedPairs expected detected toleranceS).length := by
  rw [compareOnsets_eq, List.length_map]

/-- A pair within the tolerance is matched, or one of its onsets is. -/
theorem meets_matchedPairs {i j : ℕ} (hi : i < expected.length) (hj : j < detected.length)
    (htol : gap expected detected i j ≤ toleranceS) :
    ∃ pair ∈ matchedPairs expected detected toleranceS, pair.1 = i ∨ pair.2 = j := by
  simp only [mem_matchedPairs]
  rcases taken_stable hi hj htol with htaken | ⟨c, hc, hclash, -⟩
  · exact ⟨_, ⟨_, htaken, rfl⟩, Or.inl rfl⟩
  · exact ⟨_, ⟨c, hc, rfl⟩, hclash⟩

theorem matchedPairs_inside {pair : ℕ × ℕ}
    (h : pair ∈ matchedPairs expected detected toleranceS) : pair.1 < expected.length ∧
      pair.2 < detected.length ∧ gap expected detected pair.1 pair.2 ≤ toleranceS := by
  obtain ⟨c, hc, rfl⟩ := (mem_matchedPairs expected detected toleranceS).mp h
  obtain ⟨hi, hj, htol, -⟩ := of_mem_taken hc
  exact ⟨hi, hj, htol⟩

theorem Alignment.length_le_two_mul {pairs : List (ℕ × ℕ)}
    (h : Alignment expected detected toleranceS pairs) :
    pairs.length ≤ 2 * (matchedPairs expected detected toleranceS).length := by
  refine h.matching.length_le_two_mul fun pair hpair => ?_
  obtain ⟨hi, hj⟩ := h.inside pair hpair
  exact meets_matchedPairs hi hj (h.within pair hpair)

section Apart

variable [IsStrictOrderedRing K] (hsep : Separated expected toleranceS)

include hsep

/-- An expected onset that some detection is near to is matched. -/
theorem Separated.matched_of_near {i j : ℕ} (hi : i < expected.length) (hj : j < detected.length)
    (htol : gap expected detected i j ≤ toleranceS) :
    ∃ pair ∈ matchedPairs expected detected toleranceS, pair.1 = i := by
  obtain ⟨pair, hpair, hsame⟩ := meets_matchedPairs hi hj htol
  obtain ⟨hi', -, htol'⟩ := matchedPairs_inside hpair
  rcases hsame with hleft | rfl
  · exact ⟨pair, hpair, hleft⟩
  · refine ⟨pair, hpair, ?_⟩
    by_contra hne
    have hfar := hsep pair.1 hi' i hi hne
    have hnear : |expected.getD pair.1 0 - expected.getD i 0| ≤ 2 * toleranceS :=
      calc |expected.getD pair.1 0 - expected.getD i 0|
        _ ≤ |expected.getD pair.1 0 - detected.getD pair.2 0| +
            |detected.getD pair.2 0 - expected.getD i 0| := abs_sub_le _ _ _
        _ ≤ toleranceS + toleranceS :=
            add_le_add ((abs_sub_comm _ _).trans_le htol') htol
        _ = 2 * toleranceS := (two_mul toleranceS).symm
    exact absurd hfar (not_lt.mpr hnear)

theorem Separated.length_le {pairs : List (ℕ × ℕ)}
    (h : Alignment expected detected toleranceS pairs) :
    pairs.length ≤ (matchedPairs expected detected toleranceS).length := by
  refine h.matching.length_le_of_left fun pair hpair => ?_
  obtain ⟨hi, hj⟩ := h.inside pair hpair
  exact hsep.matched_of_near hi hj (h.within pair hpair)

/-- The missed onsets are exactly those that no detection is near to. -/
theorem Separated.missed_eq : (compareOnsets expected detected toleranceS).missed =
    expected.filter fun e => ∀ d ∈ detected, toleranceS < |d - e| := by
  have hmissed (i : ℕ) (hi : i ∈ List.range expected.length) :
      decide (i ∉ (matchedPairs expected detected toleranceS).map Prod.fst) =
        decide (∀ d ∈ detected, toleranceS < |d - expected.getD i 0|) := by
    have hi := List.mem_range.mp hi
    refine decide_eq_decide.mpr ⟨fun hfree d hd => ?_, fun hfar hmem => ?_⟩
    · obtain ⟨j, hj, rfl⟩ := List.mem_iff_getElem.mp hd
      by_contra hnear
      have htol : gap expected detected i j ≤ toleranceS := by
        rw [gap, List.getD_eq_getElem detected 0 hj]
        exact not_lt.mp hnear
      obtain ⟨pair, hpair, rfl⟩ := hsep.matched_of_near hi hj htol
      exact hfree (List.mem_map_of_mem hpair)
    · obtain ⟨pair, hpair, rfl⟩ := List.mem_map.mp hmem
      obtain ⟨-, hj, htol⟩ := matchedPairs_inside hpair
      have hlt := hfar _ (List.getElem_mem hj)
      rw [gap, List.getD_eq_getElem detected 0 hj] at htol
      exact absurd hlt (not_lt.mpr htol)
  conv_rhs => rw [eq_map_getD expected]
  rw [compareOnsets_eq, List.filter_map]
  exact congrArg (List.map _) (List.filter_congr hmissed)

end Apart

/-- No alignment pairs more than twice as many onsets as the comparison. When the expected
onsets are separated, none pairs more, and the missed onsets are those without a detection. -/
theorem compareOnsets_quality [IsStrictOrderedRing K] (expected detected : List K)
    (toleranceS : K) :
    (∀ pairs, Alignment expected detected toleranceS pairs →
      pairs.length ≤ 2 * (compareOnsets expected detected toleranceS).matched.length) ∧
    (Separated expected toleranceS →
      (∀ pairs, Alignment expected detected toleranceS pairs →
        pairs.length ≤ (compareOnsets expected detected toleranceS).matched.length) ∧
      (compareOnsets expected detected toleranceS).missed =
        expected.filter fun e => ∀ d ∈ detected, toleranceS < |d - e|) := by
  rw [length_matched]
  exact ⟨fun pairs h => h.length_le_two_mul,
    fun hsep => ⟨fun pairs h => hsep.length_le h, hsep.missed_eq⟩⟩

theorem compareOnsets_quality_sample :
    Separated [1, 2, (3 : ℚ)] (1 / 20) ∧
      Alignment [1, 2, (3 : ℚ)] [101 / 100, 5 / 2, 299 / 100] (1 / 20) [(0, 0), (2, 2)] ∧
      2 ≤ (compareOnsets [1, 2, (3 : ℚ)] [101 / 100, 5 / 2, 299 / 100] (1 / 20)).matched.length ∧
      (compareOnsets [1, 2, (3 : ℚ)] [101 / 100, 5 / 2, 299 / 100] (1 / 20)).missed = [2] := by
  have hsep : Separated [1, 2, (3 : ℚ)] (1 / 20) := by
    unfold Separated
    decide +kernel
  have halign : Alignment [1, 2, (3 : ℚ)] [101 / 100, 5 / 2, 299 / 100] (1 / 20)
      [(0, 0), (2, 2)] :=
    { matching := ⟨by decide, by decide⟩, inside := by decide, within := by decide +kernel }
  obtain ⟨hbest, hmissed⟩ :=
    (compareOnsets_quality [1, 2, (3 : ℚ)] [101 / 100, 5 / 2, 299 / 100] (1 / 20)).2 hsep
  exact ⟨hsep, halign, hbest _ halign, hmissed.trans (by decide +kernel)⟩

end Golden
