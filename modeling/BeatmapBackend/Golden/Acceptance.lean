import BeatmapBackend.Golden.Quality

/-! What the assertions of the golden test say about a detector: that its onsets, taken in order,
are the onsets of the midi file to within the limit. -/
namespace Golden
open Numerics

variable {K : Type} [Field K] [LinearOrder K]

def OnsetMatch.deviation (m : OnsetMatch K) : K := m.detected - m.expected

def deviationsMs (comparison : OnsetComparison K) : List K :=
  (comparison.matched.map OnsetMatch.deviation).map (· * 1000)

def maxAbsDeviationMs : K := 25

def testDetectsOneOnsetPerMidiNote (expected detected : List K) : Bool :=
  decide (detected.length = expected.length)

def testEveryMidiNoteIsMatchedByADetection (expected detected : List K) : Bool :=
  let comparison := compareOnsets expected detected
  decide ((comparison.missed.length, comparison.spurious.length) = (0, 0))

/-- `np.max` raises on an empty array. -/
def testDetectedOnsetsLandCloseToTheMidiNote (expected detected : List K) : Bool :=
  match (deviationsMs (compareOnsets expected detected)).map abs with
  | [] => false
  | d :: ds => decide (amax d ds ≤ maxAbsDeviationMs)

def testsPass (expected detected : List K) : Bool :=
  testDetectsOneOnsetPerMidiNote expected detected &&
    testEveryMidiNoteIsMatchedByADetection expected detected &&
    testDetectedOnsetsLandCloseToTheMidiNote expected detected

structure LandsClose (expected detected : List K) (limit : K) : Prop where
  length : detected.length = expected.length
  close : ∀ i < expected.length, gap expected detected i i ≤ limit

section Assertions

variable {expected detected : List K}

theorem matchedPairs_fst_nodup :
    ((matchedPairs expected detected defaultToleranceS).map Prod.fst).Nodup :=
  matchedPairs_nodup expected detected _ Prod.fst fun _ _ hclash he => hclash (Or.inl he)

theorem matchedPairs_snd_nodup :
    ((matchedPairs expected detected defaultToleranceS).map Prod.snd).Nodup :=
  matchedPairs_nodup expected detected _ Prod.snd fun _ _ hclash he => hclash (Or.inr he)

/-- What is left over has no entries when every index is in the list. -/
theorem leftover_eq_zero {n : ℕ} {is : List ℕ} :
    ((List.range n).filter fun i => decide (i ∉ is)).length = 0 ↔ ∀ i < n, i ∈ is := by
  rw [List.length_eq_zero_iff, List.filter_eq_nil_iff]
  simp

theorem testEveryMidiNote_iff :
    testEveryMidiNoteIsMatchedByADetection expected detected = true ↔
      (∀ i < expected.length, i ∈ (matchedPairs expected detected defaultToleranceS).map Prod.fst) ∧
      ∀ j < detected.length,
        j ∈ (matchedPairs expected detected defaultToleranceS).map Prod.snd := by
  rw [testEveryMidiNoteIsMatchedByADetection, compareOnsets_eq, decide_eq_true_iff, Prod.mk.injEq,
    List.length_map, List.length_map, leftover_eq_zero, leftover_eq_zero]

theorem deviationsMs_eq : (deviationsMs (compareOnsets expected detected)).map abs =
    (matchedPairs expected detected defaultToleranceS).map fun pair =>
      |(detected.getD pair.2 0 - expected.getD pair.1 0) * 1000| := by
  simp only [deviationsMs, compareOnsets_eq, List.map_map]
  rfl

theorem testDetectedOnsets_iff [IsStrictOrderedRing K] :
    testDetectedOnsetsLandCloseToTheMidiNote expected detected = true ↔
      matchedPairs expected detected defaultToleranceS ≠ [] ∧
      ∀ pair ∈ matchedPairs expected detected defaultToleranceS,
        gap expected detected pair.1 pair.2 * 1000 ≤ maxAbsDeviationMs := by
  have hgap (pair : ℕ × ℕ) : |(detected.getD pair.2 0 - expected.getD pair.1 0) * 1000| =
      gap expected detected pair.1 pair.2 * 1000 := by
    rw [abs_mul, abs_of_pos (show (0 : K) < 1000 by norm_num), gap]
  unfold testDetectedOnsetsLandCloseToTheMidiNote
  rw [deviationsMs_eq]
  simp only [hgap]
  cases matchedPairs expected detected defaultToleranceS with
  | nil => simp
  | cons pair pairs =>
    rw [List.map_cons]
    simp only [decide_eq_true_eq, amax_le_iff, ne_eq, reduceCtorEq, not_false_eq_true, true_and]
    simp only [List.forall_mem_cons, List.forall_mem_map]

end Assertions

section Acceptance

variable [IsStrictOrderedRing K] {expected detected : List K}

/-- What passes the test lands close, in the order of time. -/
theorem landsClose_of_testsPass (hexpected : expected.SortedLE) (hdetected : detected.SortedLE)
    (h : testsPass expected detected = true) :
    expected ≠ [] ∧ LandsClose expected detected (1 / 40) := by
  rw [testsPass, Bool.and_eq_true, Bool.and_eq_true, testEveryMidiNote_iff,
    testDetectedOnsets_iff] at h
  obtain ⟨⟨hlength, hfst, hsnd⟩, hne, hclose⟩ := h
  have hlength : detected.length = expected.length := of_decide_eq_true hlength
  have hexp := perm_map_getD matchedPairs_fst_nodup (fun _ hp => (matchedPairs_inside hp).1) hfst
  have hdet := perm_map_getD matchedPairs_snd_nodup (fun _ hp => (matchedPairs_inside hp).2.1) hsnd
  have hnear (pair : ℕ × ℕ) (hp : pair ∈ matchedPairs expected detected defaultToleranceS) :
      |detected.getD pair.2 0 - expected.getD pair.1 0| ≤ 1 / 40 := by
    have hle := hclose pair hp
    rw [maxAbsDeviationMs, gap] at hle
    linarith
  constructor
  · rintro rfl
    apply hne
    apply List.eq_nil_iff_forall_not_mem.mpr
    intro pair hp
    exact absurd (matchedPairs_inside hp).1 (Nat.not_lt_zero _)
  · refine ⟨hlength, fun i hi => ?_⟩
    have hi' : i < detected.length := hlength ▸ hi
    have habove : detected[i] ≤ expected[i] + 1 / 40 := by
      refine getElem_le_add hexpected hdetected hexp hdet (fun p hp => ?_) hi hi'
      linarith [(abs_le.mp (hnear p hp)).2]
    have hbelow : expected[i] ≤ detected[i] + 1 / 40 := by
      refine getElem_le_add hdetected hexpected hdet hexp (fun p hp => ?_) hi' hi
      linarith [(abs_le.mp (hnear p hp)).1]
    rw [gap, List.getD_eq_getElem detected 0 hi', List.getD_eq_getElem expected 0 hi, abs_le]
    constructor <;> linarith

/-- A detection that is close to its own onset is close to no other. -/
theorem LandsClose.diagonal (h : LandsClose expected detected (1 / 40))
    (hsep : Separated expected (1 / 40)) {i j : ℕ} (hi : i < expected.length)
    (hj : j < detected.length) (hgap : gap expected detected i j ≤ 1 / 40) : i = j := by
  by_contra hne
  have hj' : j < expected.length := h.length ▸ hj
  have hfar := hsep i hi j hj' hne
  have hown := h.close j hj'
  have htriangle := abs_sub_le (expected.getD i 0) (detected.getD j 0) (expected.getD j 0)
  rw [abs_sub_comm (expected.getD i 0) (detected.getD j 0)] at htriangle
  rw [gap] at hgap hown
  linarith

/-- What lands close to onsets that are apart is matched index by index. -/
theorem LandsClose.mem_matchedPairs (h : LandsClose expected detected (1 / 40))
    (hsep : Separated expected (1 / 40)) {i : ℕ} (hi : i < expected.length) :
    (i, i) ∈ matchedPairs expected detected defaultToleranceS := by
  have hi' : i < detected.length := h.length.symm ▸ hi
  have htol : (1 / 40 : K) ≤ defaultToleranceS := by
    unfold defaultToleranceS
    norm_num
  rw [Golden.mem_matchedPairs]
  rcases taken_stable hi hi' ((h.close i hi).trans htol) with htaken | ⟨c, hc, hclash, hle⟩
  · exact ⟨_, htaken, rfl⟩
  · obtain ⟨hexp, hdet, -, -⟩ := of_mem_taken hc
    have hdiagonal := h.diagonal hsep hexp hdet (hle.trans (h.close i hi))
    refine ⟨c, hc, ?_⟩
    rcases hclash with heq | heq
    · exact Prod.ext heq (hdiagonal.symm.trans heq)
    · exact Prod.ext (hdiagonal.trans heq) heq

theorem testsPass_of_landsClose (hsep : Separated expected (1 / 40)) (hne : expected ≠ [])
    (h : LandsClose expected detected (1 / 40)) : testsPass expected detected = true := by
  have hdiagonal {i : ℕ} (hi : i < expected.length) := h.mem_matchedPairs hsep hi
  rw [testsPass, Bool.and_eq_true, Bool.and_eq_true, testEveryMidiNote_iff,
    testDetectedOnsets_iff]
  refine ⟨⟨decide_eq_true h.length, fun i hi => ?_, fun j hj => ?_⟩, ?_, fun pair hp => ?_⟩
  · exact List.mem_map_of_mem (f := Prod.fst) (hdiagonal hi)
  · exact List.mem_map_of_mem (f := Prod.snd) (hdiagonal (h.length ▸ hj))
  · exact List.ne_nil_of_mem (hdiagonal (List.length_pos_iff.mpr hne))
  · obtain ⟨hi, -, -⟩ := matchedPairs_inside hp
    have hpair : pair = (pair.1, pair.1) :=
      List.inj_on_of_nodup_map matchedPairs_fst_nodup hp (hdiagonal hi) rfl
    have hclose := h.close pair.1 hi
    rw [hpair, maxAbsDeviationMs]
    linarith

/-- The golden test accepts onsets that agree with those of the midi file one by one, to within
25 ms; if attacks are more than 50 ms apart it accepts all of them. -/
theorem testsPass_landsClose (hexpected : expected.SortedLE) (hdetected : detected.SortedLE) :
    (testsPass expected detected = true → LandsClose expected detected (1 / 40)) ∧
    (Separated expected (1 / 40) → (testsPass expected detected = true ↔
      expected ≠ [] ∧ LandsClose expected detected (1 / 40))) := by
  have honly := landsClose_of_testsPass hexpected hdetected
  exact ⟨fun h => (honly h).2, fun hsep => ⟨honly, fun h => testsPass_of_landsClose hsep h.1 h.2⟩⟩

theorem testsPass_landsClose_sample :
    testsPass [1, (2 : ℚ)] [101 / 100, 199 / 100] = true ∧
      LandsClose [1, (2 : ℚ)] [101 / 100, 199 / 100] (1 / 40) := by
  have hexpected : [1, (2 : ℚ)].SortedLE := List.Pairwise.sortedLE (by decide +kernel)
  have hdetected : [101 / 100, (199 / 100 : ℚ)].SortedLE :=
    List.Pairwise.sortedLE (by decide +kernel)
  have hpass : testsPass [1, (2 : ℚ)] [101 / 100, 199 / 100] = true := by decide +kernel
  exact ⟨hpass, (testsPass_landsClose hexpected hdetected).1 hpass⟩

end Acceptance
end Golden
