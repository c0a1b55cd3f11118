import BeatmapBackend.Maps.Novelty
import BeatmapBackend.Numerics.OrderStatistics
import BeatmapBackend.Numerics.Hats

/-! The filters of the novelty are hat functions over the center bins, so they add up to one on
every bin between the second center and the last but one. -/
namespace Maps
open Numerics

variable {K : Type} [Field K] [LinearOrder K]

section Writes

/-- The three bins of each band. -/
def bandBins (bins : List ℕ) : List (ℕ × ℕ × ℕ) :=
  bins.zip ((bins.drop 1).zip (bins.drop 2))

/-- The filter of the band `write.2` is written into its column. -/
def writeBand (filterbank : Grid K) (write : (ℕ × ℕ × ℕ) × ℕ) : Grid K :=
  writeTriangle filterbank write.1.1 write.1.2.1 write.1.2.2 write.2

/-- `g[start:stop, col] = values` neither leaves the array nor changes its shape. -/
structure SliceFits (g : Grid K) (start stop col : ℕ) (values : List K) : Prop where
  rows : start ≤ stop ∧ stop ≤ g.rows
  cols : col < g.cols
  shape : values.length = stop - start

@[simp] theorem length_bandBins (bins : List ℕ) : (bandBins bins).length = bins.length - 2 := by
  simp only [bandBins, List.length_zip, List.length_drop]
  omega

theorem getElem_bandBins {bins : List ℕ} {m : ℕ} (hm : m < (bandBins bins).length) :
    (bandBins bins)[m] = (bins.getD m 0, bins.getD (m + 1) 0, bins.getD (m + 2) 0) := by
  have hlen : m + 2 < bins.length := by
    rw [length_bandBins] at hm
    omega
  rw [List.getD_eq_getElem _ _ hlen, List.getD_eq_getElem _ _ (by omega),
    List.getD_eq_getElem _ _ (by omega)]
  simp [bandBins, Nat.add_comm]

variable [IsStrictOrderedRing K] {filterbank : Grid K} {left center right band k m : ℕ}

omit [LinearOrder K] [IsStrictOrderedRing K] in
theorem getD_linspace {a b d : K} {n i : ℕ} (hi : i < n) :
    (linspace a b n).getD i d = a + i * ((b - a) / (n - 1 : ℕ)) := by
  rw [List.getD_eq_getElem _ _ (by simpa using hi)]
  simp only [linspace_eq, List.getElem_map, List.getElem_range]

omit [LinearOrder K] [IsStrictOrderedRing K] in
theorem writeTriangle_other (hm : m ≠ band) :
    (writeTriangle filterbank left center right band).entry k m = filterbank.entry k m := by
  simp [writeTriangle, Grid.setColumnSlice, hm]

/-- The two slices overlap at the center, where both are one. -/
theorem writeTriangle_entry (hleft : left < center) (hright : center < right)
    (hzero : filterbank.entry k band = 0) :
    (writeTriangle filterbank left center right band).entry k band =
      hat (left : K) center right k := by
  have hl : (left : K) < center := by exact_mod_cast hleft
  have hr : (center : K) < right := by exact_mod_cast hright
  simp only [writeTriangle, Grid.setColumnSlice, true_and, hzero]
  by_cases hdown : center ≤ k ∧ k < right + 1
  · have hc : (center : K) ≤ k := by exact_mod_cast hdown.1
    have hk : (k : K) ≤ right := by exact_mod_cast Nat.le_of_lt_succ hdown.2
    have hne : (right : K) - center ≠ 0 := (sub_pos.mpr hr).ne'
    rw [if_pos hdown, getD_linspace (by omega), hat_down hl hr hc hk, Nat.add_sub_cancel,
      Nat.cast_sub hdown.1, Nat.cast_sub hright.le]
    field_simp
    ring
  rw [if_neg hdown]
  by_cases hup : left ≤ k ∧ k < center + 1
  · have hk : (left : K) ≤ k := by exact_mod_cast hup.1
    have hc : (k : K) ≤ center := by exact_mod_cast Nat.le_of_lt_succ hup.2
    rw [if_pos hup, getD_linspace (by omega), hat_up hl hr hk hc, Nat.add_sub_cancel,
      Nat.cast_sub hup.1, Nat.cast_sub hleft.le]
    ring
  rw [if_neg hup]
  rcases Nat.lt_or_ge k left with hlt | hge
  · have hk : (k : K) ≤ left := by exact_mod_cast hlt.le
    exact (hat_of_le hl hr hk).symm
  · have hk : (right : K) ≤ k := by exact_mod_cast (show right ≤ k by omega)
    exact (hat_of_ge hl hr hk).symm

omit [LinearOrder K] [IsStrictOrderedRing K] in
theorem foldl_writeBand_other (bands : List (ℕ × ℕ × ℕ)) {n : ℕ} (hm : m < n) :
    ((bands.zipIdx n).foldl writeBand filterbank).entry k m = filterbank.entry k m := by
  induction bands generalizing n filterbank with
  | nil => rfl
  | cons bins bands ih =>
    rw [List.zipIdx_cons, List.foldl_cons, ih (hm.trans (Nat.lt_succ_self n))]
    exact writeTriangle_other hm.ne

/-- Every band is written once, into a column of zeros. -/
theorem foldl_writeBand_entry {bands : List (ℕ × ℕ × ℕ)} {n j : ℕ} (hj : j < bands.length)
    (hbands : ∀ bins ∈ bands, bins.1 < bins.2.1 ∧ bins.2.1 < bins.2.2)
    (hzero : ∀ m ≥ n, filterbank.entry k m = 0) :
    ((bands.zipIdx n).foldl writeBand filterbank).entry k (n + j) =
      hat (bands[j].1 : K) bands[j].2.1 bands[j].2.2 k := by
  induction bands generalizing n j filterbank with
  | nil => simp at hj
  | cons bins bands ih =>
    rw [List.zipIdx_cons, List.foldl_cons]
    obtain ⟨hhead, htail⟩ := List.forall_mem_cons.mp hbands
    cases j with
    | zero =>
      rw [foldl_writeBand_other bands (show n + 0 < n + 1 by omega)]
      exact writeTriangle_entry hhead.1 hhead.2 (hzero n le_rfl)
    | succ j =>
      rw [show n + (j + 1) = n + 1 + j by omega]
      apply ih (Nat.lt_of_succ_lt_succ hj) htail
      intro m hm
      rw [writeBand, writeTriangle_other (by omega)]
      exact hzero m (by omega)

omit [IsStrictOrderedRing K] [LinearOrder K] in
theorem foldl_writeBand_cols (writes : List ((ℕ × ℕ × ℕ) × ℕ)) :
    (writes.foldl writeBand filterbank).cols = filterbank.cols := by
  induction writes generalizing filterbank with
  | nil => rfl
  | cons write writes ih => exact ih

end Writes

variable [FloorRing K]

section Bins

variable (lib : Librosa K) (sr nFft : ℕ)

theorem centerBins_pairwise : (centerBins lib sr nFft).Pairwise (· < ·) := by
  unfold centerBins
  dsimp only
  rw [List.pairwise_map]
  apply ((unique_pairwise _).filter _).imp_of_mem
  intro b c hb hc hlt
  have hpos := (of_decide_eq_true (List.mem_filter.mp hb).2).1
  omega

theorem centerBins_mem {bin : ℕ} (h : bin ∈ centerBins lib sr nFft) :
    0 < bin ∧ bin < nFft / 2 := by
  unfold centerBins at h
  dsimp only at h
  obtain ⟨b, hb, rfl⟩ := List.mem_map.mp h
  have hin := of_decide_eq_true (List.mem_filter.mp hb).2
  push_cast at hin
  omega

end Bins

/-- What the filters over a list of bins satisfy: their writes fit, and they are hat functions that
add up to one. -/
structure PartitionOfUnity (filterbank : Grid K) (bins : List ℕ) : Prop where
  /-- Both slices of a band. -/
  fits : ∀ write ∈ (bandBins bins).zipIdx,
    SliceFits filterbank write.1.1 (write.1.2.1 + 1) write.2
      (linspace 0 1 (write.1.2.1 - write.1.1 + 1)) ∧
    SliceFits filterbank write.1.2.1 (write.1.2.2 + 1) write.2
      (linspace 1 0 (write.1.2.2 - write.1.2.1 + 1))
  empty : bins.length < 3 → filterbank.cols = 0
  cols : 3 ≤ bins.length → filterbank.cols = bins.length - 2
  range : ∀ k, ∀ m < filterbank.cols, 0 ≤ filterbank.entry k m ∧ filterbank.entry k m ≤ 1
  positive : ∀ k, ∀ m < filterbank.cols,
    0 < filterbank.entry k m ↔ bins.getD m 0 < k ∧ k < bins.getD (m + 2) 0
  peak : ∀ k, ∀ m < filterbank.cols, filterbank.entry k m = 1 ↔ k = bins.getD (m + 1) 0
  overlap : ∀ k,
    ((Finset.range filterbank.cols).filter fun m => 0 < filterbank.entry k m).card ≤ 2
  sum : 3 ≤ bins.length → ∀ k, bins.getD 1 0 ≤ k → k ≤ bins.getD (bins.length - 2) 0 →
    (∑ m ∈ Finset.range filterbank.cols, filterbank.entry k m) = 1
  outside : ∀ k, k < bins.getD 0 0 ∨ bins.getD (bins.length - 1) 0 < k →
    ∀ m < filterbank.cols, filterbank.entry k m = 0

section Partition

variable (lib : Librosa K) (sr nFft : ℕ)

theorem quarterToneFilterbank_eq (h : 3 ≤ (centerBins lib sr nFft).length) :
    quarterToneFilterbank lib sr nFft = (bandBins (centerBins lib sr nFft)).zipIdx.foldl writeBand
      (.zeros (nFft / 2 + 1) ((centerBins lib sr nFft).length - 2)) := by
  unfold quarterToneFilterbank
  dsimp only
  rw [if_neg (Nat.not_lt.mpr h)]
  rfl

theorem quarterToneFilterbank_cols : (quarterToneFilterbank lib sr nFft).cols =
    (centerBins lib sr nFft).length - 2 := by
  rcases Nat.lt_or_ge (centerBins lib sr nFft).length 3 with hshort | hlong
  · unfold quarterToneFilterbank
    dsimp only
    rw [if_pos hshort, show (centerBins lib sr nFft).length - 2 = 0 by omega]
    rfl
  · rw [quarterToneFilterbank_eq lib sr nFft hlong, foldl_writeBand_cols]
    rfl

theorem getD_centerBins_lt {i j : ℕ} (hij : i < j) (hj : j < (centerBins lib sr nFft).length) :
    (centerBins lib sr nFft).getD i 0 < (centerBins lib sr nFft).getD j 0 := by
  rw [List.getD_eq_getElem _ _ hj, List.getD_eq_getElem _ _ (hij.trans hj)]
  exact List.pairwise_iff_getElem.mp (centerBins_pairwise lib sr nFft) i j _ hj hij

theorem bandBins_centerBins {bins : ℕ × ℕ × ℕ} (h : bins ∈ bandBins (centerBins lib sr nFft)) :
    bins.1 < bins.2.1 ∧ bins.2.1 < bins.2.2 ∧ bins.2.2 < nFft / 2 := by
  obtain ⟨m, hm, rfl⟩ := List.mem_iff_getElem.mp h
  have hlen := length_bandBins (centerBins lib sr nFft)
  rw [getElem_bandBins hm]
  dsimp only
  refine ⟨getD_centerBins_lt lib sr nFft (by omega) (by omega),
    getD_centerBins_lt lib sr nFft (by omega) (by omega), ?_⟩
  rw [List.getD_eq_getElem _ _ (by omega)]
  exact (centerBins_mem lib sr nFft (List.getElem_mem _)).2

variable [IsStrictOrderedRing K]

def knot (m : ℕ) : K := ((centerBins lib sr nFft).getD m 0 : ℕ)

theorem quarterToneFilterbank_entry (k : ℕ) {m : ℕ}
    (hm : m < (quarterToneFilterbank lib sr nFft).cols) :
    (quarterToneFilterbank lib sr nFft).entry k m =
      hat (knot lib sr nFft m) (knot lib sr nFft (m + 1)) (knot lib sr nFft (m + 2)) k := by
  rw [quarterToneFilterbank_cols] at hm
  have hband : m < (bandBins (centerBins lib sr nFft)).length := by rwa [length_bandBins]
  have hbands (bins : ℕ × ℕ × ℕ) (hbins : bins ∈ bandBins (centerBins lib sr nFft)) :
      bins.1 < bins.2.1 ∧ bins.2.1 < bins.2.2 := by
    obtain ⟨hleft, hright, -⟩ := bandBins_centerBins lib sr nFft hbins
    exact ⟨hleft, hright⟩
  have hentry (g : Grid K) (hzero : ∀ m ≥ 0, g.entry k m = 0) :=
    foldl_writeBand_entry hband hbands hzero
  rw [quarterToneFilterbank_eq lib sr nFft (by omega)]
  simpa only [Nat.zero_add, getElem_bandBins hband, knot] using hentry (.zeros _ _) fun _ _ => rfl

/-- The quarter-tone filters are a partition of unity, whatever the rate and the transform. -/
theorem quarterToneFilterbank_partitionOfUnity :
    (centerBins lib sr nFft).Pairwise (· < ·) ∧
    (∀ bin ∈ centerBins lib sr nFft, 0 < bin ∧ bin < nFft / 2) ∧
    PartitionOfUnity (quarterToneFilterbank lib sr nFft) (centerBins lib sr nFft) := by
  have hcols := quarterToneFilterbank_cols lib sr nFft
  have hrows := quarterToneFilterbank_rows lib sr nFft
  have hknots (i j : ℕ) (hij : i < j) (hj : j < (centerBins lib sr nFft).length) :
      (knot lib sr nFft i : K) < knot lib sr nFft j :=
    Nat.cast_lt.mpr (getD_centerBins_lt lib sr nFft hij hj)
  have hentry (k : ℕ) (m : ℕ) (hm : m < (quarterToneFilterbank lib sr nFft).cols) :=
    quarterToneFilterbank_entry lib sr nFft k hm
  have hup (m : ℕ) (hm : m < (quarterToneFilterbank lib sr nFft).cols) :
      (knot lib sr nFft m : K) < knot lib sr nFft (m + 1) := hknots _ _ (by omega) (by omega)
  have hdown (m : ℕ) (hm : m < (quarterToneFilterbank lib sr nFft).cols) :
      (knot lib sr nFft (m + 1) : K) < knot lib sr nFft (m + 2) :=
    hknots _ _ (by omega) (by omega)
  refine ⟨centerBins_pairwise lib sr nFft, fun _ => centerBins_mem lib sr nFft, ?_⟩
  constructor
  case fits =>
    intro write hwrite
    obtain ⟨hlt, hbins⟩ := List.mem_zipIdx' hwrite
    obtain ⟨hleft, hright, hlast⟩ :=
      bandBins_centerBins lib sr nFft (hbins ▸ List.getElem_mem hlt)
    rw [length_bandBins] at hlt
    refine ⟨⟨?_, ?_, ?_⟩, ⟨?_, ?_, ?_⟩⟩ <;>
      simp only [length_linspace, hrows, hcols] <;> omega
  case empty =>
    intro hshort
    omega
  case cols => exact fun _ => hcols
  case range =>
    intro k m hm
    rw [hentry k m hm]
    exact ⟨hat_nonneg (hup m hm) (hdown m hm), hat_le_one⟩
  case positive =>
    intro k m hm
    rw [hentry k m hm, hat_pos_iff (hup m hm) (hdown m hm)]
    exact and_congr Nat.cast_lt Nat.cast_lt
  case peak =>
    intro k m hm
    rw [hentry k m hm, hat_eq_one_iff (hup m hm) (hdown m hm)]
    exact Nat.cast_inj
  case overlap =>
    intro k
    rcases Nat.eq_zero_or_pos (quarterToneFilterbank lib sr nFft).cols with hzero | hpos
    · rw [hzero]
      exact Nat.zero_le 2
    · rw [Finset.filter_congr fun m hm => by rw [hentry k m (Finset.mem_range.mp hm)]]
      exact card_hat_pos_le (fun i j hij hj => hknots i j hij (by omega)) (k : K)
  case sum =>
    intro hlong k hfirst hlast
    rw [Finset.sum_congr rfl fun m hm => hentry k m (Finset.mem_range.mp hm), hcols]
    exact sum_hat_eq_one (hknots _ _ (by omega) (by omega)) (hknots _ _ (by omega) (by omega))
      (Nat.cast_le.mpr hfirst) (Nat.cast_le.mpr hlast)
  case outside =>
    intro k hout m hm
    rw [hentry k m hm]
    have hmono (i j : ℕ) (hij : i ≤ j) (hj : j < (centerBins lib sr nFft).length) :
        (knot lib sr nFft i : K) ≤ knot lib sr nFft j := by
      rcases hij.lt_or_eq with hlt | rfl
      · exact (hknots i j hlt hj).le
      · exact le_rfl
    rcases hout with hbelow | habove
    · have hk : (k : K) < knot lib sr nFft 0 := Nat.cast_lt.mpr hbelow
      exact hat_of_le (hup m hm) (hdown m hm) (hk.le.trans (hmono 0 m (by omega) (by omega)))
    · have hk : (knot lib sr nFft ((centerBins lib sr nFft).length - 1) : K) < k :=
        Nat.cast_lt.mpr habove
      exact hat_of_ge (hup m hm) (hdown m hm) ((hmono (m + 2) _ (by omega) (by omega)).trans hk.le)

end Partition

open Sample in
theorem quarterToneFilterbank_partitionOfUnity_sample :
    PartitionOfUnity (quarterToneFilterbank tuned 440 32) (centerBins tuned 440 32) :=
  (quarterToneFilterbank_partitionOfUnity tuned 440 32).2.2

open Sample in
example : centerBins tuned 440 8 = [1, 2, 3] := by decide +kernel

end Maps
