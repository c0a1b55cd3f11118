import BeatmapBackend.Collections.Spacing
import BeatmapBackend.Numerics.OrderStatistics
import Mathlib.Data.Finset.Basic
import Mathlib.Data.Prod.Lex

/-! Aligning the detected onsets of a golden track with the expected ones. Pairs within the
tolerance are taken in the order of their distance, so the result is a stable matching. -/
namespace Golden
open Numerics Collections

/-- One detected onset paired with the expected onset it accounts for. -/
structure OnsetMatch (K : Type) where
  expected : K
  detected : K
  deriving DecidableEq

structure OnsetComparison (K : Type) where
  matched : List (OnsetMatch K) := []
  missed : List K := []
  spurious : List K := []
  deriving DecidableEq

variable {K : Type} [Field K] [LinearOrder K]

def defaultToleranceS : K := 0.05

/-- The distance of a pair and the indices of its expected and its detected onset. -/
abbrev Candidate (K : Type) := K ×ₗ ℕ ×ₗ ℕ

namespace Candidate

def distance (c : Candidate K) : K := (ofLex c).1
def expIndex (c : Candidate K) : ℕ := (ofLex (ofLex c).2).1
def detIndex (c : Candidate K) : ℕ := (ofLex (ofLex c).2).2

end Candidate

def candidates (expected detected : List K) (toleranceS : K) : List (Candidate K) :=
  sort (expected.zipIdx.flatMap fun (exp, expIndex) =>
    (detected.zipIdx.filter fun (det, _) => decide (|det - exp| ≤ toleranceS)).map
      fun (det, detIndex) => toLex (|det - exp|, toLex (expIndex, detIndex)))

/-- The two sets of claimed indices and the matches so far. -/
structure Claims (K : Type) where
  claimedExpected : Finset ℕ := ∅
  claimedDetected : Finset ℕ := ∅
  matched : List (OnsetMatch K) := []

def onsetMatch (expected detected : List K) (c : Candidate K) : OnsetMatch K :=
  ⟨expected.getD c.expIndex 0, detected.getD c.detIndex 0⟩

def claim (expected detected : List K) (claims : Claims K) (c : Candidate K) : Claims K :=
  if c.expIndex ∈ claims.claimedExpected ∨ c.detIndex ∈ claims.claimedDetected then claims
  else
    { claimedExpected := insert c.expIndex claims.claimedExpected
      claimedDetected := insert c.detIndex claims.claimedDetected
      matched := claims.matched ++ [onsetMatch expected detected c] }

def compareOnsets (expected detected : List K) (toleranceS : K := defaultToleranceS) :
    OnsetComparison K :=
  let claims := (candidates expected detected toleranceS).foldl (claim expected detected) {}
  { matched := claims.matched.insertionSort fun a b => a.expected ≤ b.expected
    missed := (expected.zipIdx.filter fun (_, index) =>
      decide (index ∉ claims.claimedExpected)).map Prod.fst
    spurious := (detected.zipIdx.filter fun (_, index) =>
      decide (index ∉ claims.claimedDetected)).map Prod.fst }

section Candidates

variable {expected detected : List K} {toleranceS : K} {c d : Candidate K}

def gap (expected detected : List K) (i j : ℕ) : K :=
  |detected.getD j 0 - expected.getD i 0|

def candidate (expected detected : List K) (i j : ℕ) : Candidate K :=
  toLex (gap expected detected i j, toLex (i, j))

theorem mem_candidates_iff : c ∈ candidates expected detected toleranceS ↔
    ∃ i < expected.length, ∃ j < detected.length,
      gap expected detected i j ≤ toleranceS ∧ c = candidate expected detected i j := by
  rw [candidates, (sort_perm _).mem_iff]
  constructor
  · intro h
    obtain ⟨⟨e, i⟩, hexp, h⟩ := List.mem_flatMap.mp h
    obtain ⟨⟨d, j⟩, hpair, rfl⟩ := List.mem_map.mp h
    obtain ⟨hdet, htol⟩ := List.mem_filter.mp hpair
    have he : expected[i]? = some e := List.mem_zipIdx_iff_getElem?.mp hexp
    have hd : detected[j]? = some d := List.mem_zipIdx_iff_getElem?.mp hdet
    obtain ⟨hi, rfl⟩ := List.getElem?_eq_some_iff.mp he
    obtain ⟨hj, rfl⟩ := List.getElem?_eq_some_iff.mp hd
    refine ⟨i, hi, j, hj, ?_, ?_⟩
    · simpa [gap, hi, hj] using htol
    · simp [candidate, gap, hi, hj]
  · rintro ⟨i, hi, j, hj, htol, rfl⟩
    apply List.mem_flatMap.mpr
    refine ⟨(expected[i], i), List.mem_zipIdx_iff_getElem?.mpr (by simp [hi]), ?_⟩
    apply List.mem_map.mpr
    refine ⟨(detected[j], j), List.mem_filter.mpr ⟨?_, ?_⟩, ?_⟩
    · exact List.mem_zipIdx_iff_getElem?.mpr (by simp [hj])
    · simpa [gap, hi, hj] using htol
    · simp [candidate, gap, hi, hj]

theorem candidates_pairwise : (candidates expected detected toleranceS).Pairwise (· ≤ ·) :=
  (sortedLE_sort _).pairwise

omit [Field K] in
theorem distance_le (h : c ≤ d) : c.distance ≤ d.distance := by
  rcases Prod.Lex.le_iff.mp h with hlt | ⟨heq, -⟩
  · exact hlt.le
  · exact heq.le

end Candidates

section Pass

variable (expected detected : List K) (toleranceS : K)

/-- Two candidates claim one expected or one detected onset. -/
def Clash (c d : Candidate K) : Prop := c.expIndex = d.expIndex ∨ c.detIndex = d.detIndex

instance : DecidableRel (Clash (K := K)) := by
  unfold Clash
  infer_instance

def taken : List (Candidate K) := greedy Clash (candidates expected detected toleranceS)

def claimsOf (kept : List (Candidate K)) : Claims K where
  claimedExpected := (kept.map Candidate.expIndex).toFinset
  claimedDetected := (kept.map Candidate.detIndex).toFinset
  matched := kept.map (onsetMatch expected detected)

omit [Field K] [LinearOrder K] in
private theorem insert_toFinset (f : Candidate K → ℕ) (kept : List (Candidate K))
    (c : Candidate K) : insert (f c) (kept.map f).toFinset = ((kept ++ [c]).map f).toFinset := by
  ext i
  simp

omit [LinearOrder K] in
theorem claim_claimsOf (kept : List (Candidate K)) (c : Candidate K) :
    claim expected detected (claimsOf expected detected kept) c =
      claimsOf expected detected (keep Clash kept c) := by
  have hclash : (c.expIndex ∈ (claimsOf expected detected kept).claimedExpected ∨
      c.detIndex ∈ (claimsOf expected detected kept).claimedDetected) ↔
      ¬ ∀ d ∈ kept, ¬ Clash d c := by
    simp only [claimsOf, List.mem_toFinset, List.mem_map]
    push Not
    simp only [← exists_or, ← and_or_left, Clash]
  unfold claim keep
  rw [if_congr hclash rfl rfl, ite_not]
  split_ifs
  · simp only [claimsOf, insert_toFinset, List.map_append, List.map_singleton]
  · rfl

omit [LinearOrder K] in
/-- The loop over the candidates is the greedy pass. -/
theorem foldl_claim (cs : List (Candidate K)) :
    cs.foldl (claim expected detected) {} = claimsOf expected detected (greedy Clash cs) := by
  induction cs using List.reverseRecOn with
  | nil => rfl
  | append_singleton cs c ih =>
    rw [List.foldl_append, ih, greedy_concat]
    exact claim_claimsOf expected detected _ c

variable {expected detected toleranceS} {c : Candidate K}

theorem of_mem_taken (h : c ∈ taken expected detected toleranceS) :
    c.expIndex < expected.length ∧ c.detIndex < detected.length ∧
      gap expected detected c.expIndex c.detIndex ≤ toleranceS ∧
      c.distance = gap expected detected c.expIndex c.detIndex := by
  obtain ⟨i, hi, j, hj, htol, rfl⟩ := mem_candidates_iff.mp ((greedy_sublist _ _).subset h)
  exact ⟨hi, hj, htol, rfl⟩

/-- A candidate that is not taken clashes with one that is no farther apart. -/
theorem taken_stable {i j : ℕ} (hi : i < expected.length) (hj : j < detected.length)
    (htol : gap expected detected i j ≤ toleranceS) :
    candidate expected detected i j ∈ taken expected detected toleranceS ∨
      ∃ c ∈ taken expected detected toleranceS, (c.expIndex = i ∨ c.detIndex = j) ∧
        gap expected detected c.expIndex c.detIndex ≤ gap expected detected i j := by
  have hmem : candidate expected detected i j ∈ candidates expected detected toleranceS :=
    mem_candidates_iff.mpr ⟨i, hi, j, hj, htol, rfl⟩
  rcases mem_greedy_or Clash candidates_pairwise _ hmem with htaken | ⟨c, hc, hclash, hle⟩
  · exact .inl htaken
  · refine .inr ⟨c, hc, hclash, ?_⟩
    rw [← (of_mem_taken hc).2.2.2]
    exact distance_le hle

end Pass

/-- What the comparison says of the onsets, by the pairs of indices it matched: every index is
matched once or listed as unmatched, and no two onsets would rather be matched together. -/
structure StableMatching (expected detected : List K) (toleranceS : K)
    (comparison : OnsetComparison K) (pairs : List (ℕ × ℕ)) : Prop where
  matched : comparison.matched =
    pairs.map fun pair => ⟨expected.getD pair.1 0, detected.getD pair.2 0⟩
  missed : comparison.missed = ((List.range expected.length).filter fun i =>
    decide (i ∉ pairs.map Prod.fst)).map fun i => expected.getD i 0
  spurious : comparison.spurious = ((List.range detected.length).filter fun j =>
    decide (j ∉ pairs.map Prod.snd)).map fun j => detected.getD j 0
  inside : ∀ pair ∈ pairs, pair.1 < expected.length ∧ pair.2 < detected.length
  expected_once : (pairs.map Prod.fst).Nodup
  detected_once : (pairs.map Prod.snd).Nodup
  within : ∀ pair ∈ pairs, gap expected detected pair.1 pair.2 ≤ toleranceS
  ordered : comparison.matched.Pairwise fun a b => a.expected ≤ b.expected
  no_blocking : ∀ i < expected.length, ∀ j < detected.length,
    gap expected detected i j ≤ toleranceS → (i, j) ∈ pairs ∨
      ∃ pair ∈ pairs, (pair.1 = i ∨ pair.2 = j) ∧
        gap expected detected pair.1 pair.2 ≤ gap expected detected i j
  apart : ∀ e ∈ comparison.missed, ∀ d ∈ comparison.spurious, toleranceS < |d - e|

section Result

variable (expected detected : List K) (toleranceS : K)

def indexPair (c : Candidate K) : ℕ × ℕ := (c.expIndex, c.detIndex)

def matchedPairs : List (ℕ × ℕ) :=
  ((taken expected detected toleranceS).map indexPair).insertionSort fun p q =>
    expected.getD p.1 0 ≤ expected.getD q.1 0

theorem matchedPairs_perm : (matchedPairs expected detected toleranceS).Perm
    ((taken expected detected toleranceS).map indexPair) := List.perm_insertionSort _ _

theorem mem_matchedPairs {pair : ℕ × ℕ} : pair ∈ matchedPairs expected detected toleranceS ↔
    ∃ c ∈ taken expected detected toleranceS, indexPair c = pair := by
  rw [(matchedPairs_perm expected detected toleranceS).mem_iff, List.mem_map]

theorem mem_claimed (f : ℕ × ℕ → ℕ) (i : ℕ) :
    i ∈ ((taken expected detected toleranceS).map fun c => f (indexPair c)).toFinset ↔
      i ∈ (matchedPairs expected detected toleranceS).map f := by
  rw [List.mem_toFinset, ((matchedPairs_perm expected detected toleranceS).map f).mem_iff,
    List.map_map]
  rfl

theorem matchedPairs_nodup (f : ℕ × ℕ → ℕ)
    (h : ∀ c d : Candidate K, ¬ Clash c d → f (indexPair c) ≠ f (indexPair d)) :
    ((matchedPairs expected detected toleranceS).map f).Nodup := by
  rw [((matchedPairs_perm expected detected toleranceS).map f).nodup_iff, List.map_map]
  exact List.pairwise_map.mpr ((greedy_pairwise Clash _).imp fun hclash => h _ _ hclash)

omit [Field K] [LinearOrder K] in
theorem zipIdx_filter [Zero K] (xs : List K) (p : ℕ → Bool) :
    (xs.zipIdx.filter fun x => p x.2).map Prod.fst =
      ((List.range xs.length).filter p).map fun i => xs.getD i 0 := by
  have hzip : xs.zipIdx = (List.range xs.length).map fun i => (xs.getD i 0, i) := by
    apply List.ext_getElem
    · simp
    · intro i hi hi'
      have hlt : i < xs.length := by simpa using hi
      simp [hlt]
  rw [hzip, List.filter_map, List.map_map]
  rfl

theorem compareOnsets_eq : compareOnsets expected detected toleranceS =
    { matched := (matchedPairs expected detected toleranceS).map fun pair =>
        ⟨expected.getD pair.1 0, detected.getD pair.2 0⟩
      missed := ((List.range expected.length).filter fun i =>
        decide (i ∉ (matchedPairs expected detected toleranceS).map Prod.fst)).map
          fun i => expected.getD i 0
      spurious := ((List.range detected.length).filter fun j =>
        decide (j ∉ (matchedPairs expected detected toleranceS).map Prod.snd)).map
          fun j => detected.getD j 0 } := by
  let toMatch (pair : ℕ × ℕ) : OnsetMatch K :=
    ⟨expected.getD pair.1 0, detected.getD pair.2 0⟩
  have hmatched : (matchedPairs expected detected toleranceS).map toMatch =
      ((taken expected detected toleranceS).map (onsetMatch expected detected)).insertionSort
        fun a b => a.expected ≤ b.expected := by
    have hmap : (taken expected detected toleranceS).map (onsetMatch expected detected) =
        ((taken expected detected toleranceS).map indexPair).map toMatch := by
      rw [List.map_map]
      rfl
    rw [hmap]
    apply List.map_insertionSort
    exact fun _ _ _ _ => Iff.rfl
  have hexpected := mem_claimed expected detected toleranceS Prod.fst
  have hdetected := mem_claimed expected detected toleranceS Prod.snd
  rw [hmatched]
  simp only [← hexpected, ← hdetected, ← zipIdx_filter]
  rw [compareOnsets, foldl_claim]
  rfl

/-- The matcher of the golden tests finds a stable matching. -/
theorem compareOnsets_stableMatching :
    StableMatching expected detected toleranceS (compareOnsets expected detected toleranceS)
      (matchedPairs expected detected toleranceS) := by
  have hinside (pair : ℕ × ℕ) (h : pair ∈ matchedPairs expected detected toleranceS) :
      pair.1 < expected.length ∧ pair.2 < detected.length ∧
        gap expected detected pair.1 pair.2 ≤ toleranceS := by
    obtain ⟨c, hc, rfl⟩ := (mem_matchedPairs expected detected toleranceS).mp h
    obtain ⟨hi, hj, htol, -⟩ := of_mem_taken hc
    exact ⟨hi, hj, htol⟩
  have hstable (i : ℕ) (hi : i < expected.length) (j : ℕ) (hj : j < detected.length)
      (htol : gap expected detected i j ≤ toleranceS) :
      (i, j) ∈ matchedPairs expected detected toleranceS ∨
      ∃ pair ∈ matchedPairs expected detected toleranceS, (pair.1 = i ∨ pair.2 = j) ∧
        gap expected detected pair.1 pair.2 ≤ gap expected detected i j := by
    simp only [mem_matchedPairs]
    rcases taken_stable hi hj htol with htaken | ⟨c, hc, hclash, hle⟩
    · exact .inl ⟨_, htaken, rfl⟩
    · exact .inr ⟨_, ⟨c, hc, rfl⟩, hclash, hle⟩
  rw [compareOnsets_eq]
  constructor
  case matched => rfl
  case missed => rfl
  case spurious => rfl
  case inside => exact fun pair h => ⟨(hinside pair h).1, (hinside pair h).2.1⟩
  case expected_once =>
    apply matchedPairs_nodup expected detected toleranceS Prod.fst
    exact fun c d hclash he => hclash (.inl he)
  case detected_once =>
    apply matchedPairs_nodup expected detected toleranceS Prod.snd
    exact fun c d hclash he => hclash (.inr he)
  case within => exact fun pair h => (hinside pair h).2.2
  case ordered =>
    apply List.pairwise_map.mpr
    exact List.pairwise_insertionSort _ _
  case no_blocking => exact hstable
  case apart =>
    intro e he d hd
    obtain ⟨i, hi, rfl⟩ := List.mem_map.mp he
    obtain ⟨j, hj, rfl⟩ := List.mem_map.mp hd
    obtain ⟨hi, hfree⟩ := List.mem_filter.mp hi
    obtain ⟨hj, hfree'⟩ := List.mem_filter.mp hj
    have hfree := of_decide_eq_true hfree
    have hfree' := of_decide_eq_true hfree'
    by_contra hnear
    rcases hstable i (List.mem_range.mp hi) j (List.mem_range.mp hj) (not_lt.mp hnear) with
      hmem | ⟨pair, hmem, hsame, -⟩
    · exact hfree (List.mem_map_of_mem (f := Prod.fst) hmem)
    · rcases hsame with rfl | rfl
      · exact hfree (List.mem_map_of_mem hmem)
      · exact hfree' (List.mem_map_of_mem hmem)

/-- A detection between two expected onsets is credited to the one it is closest to. -/
example : compareOnsets [1, 106 / 100] [104 / 100] =
    (⟨[⟨106 / 100, 104 / 100⟩], [1], []⟩ : OnsetComparison ℚ) := by decide +kernel

end Result

end Golden
