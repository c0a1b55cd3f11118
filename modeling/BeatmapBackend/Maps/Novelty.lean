import BeatmapBackend.Maps.NotesBounds
import BeatmapBackend.Numerics.Filters
import Mathlib.Data.Rat.Floor
import Mathlib.Tactic.NormNum

/-! The novelty that onsets are picked from reports rises of the filtered energy against an
earlier frame, and nothing else. -/
namespace Maps
open Numerics

variable {K : Type} [Field K] [LinearOrder K] [FloorRing K]

/-- The filters of a spectrogram, whose rows are those of a transform twice as long. -/
def filters (lib : Librosa K) (S : Grid K) (sr : ℕ) : Grid K :=
  quarterToneFilterbank lib sr (2 * (S.rows - 1))

def lag (lib : Librosa K) (S : Grid K) (hop : ℕ) : ℕ := frameLag lib (2 * (S.rows - 1)) hop

def energy (lib : Librosa K) (S : Grid K) (sr band frame : ℕ) : K :=
  ((filters lib S sr).transposeMul S).entry band frame

def logEnergies (lib : Librosa K) (S : Grid K) (sr : ℕ) : Grid K :=
  ((filters lib S sr).transposeMul S).map fun x => lib.log10 (x + 1)

@[simp] theorem logEnergies_rows (lib : Librosa K) (S : Grid K) (sr : ℕ) :
    (logEnergies lib S sr).rows = (filters lib S sr).cols := rfl

@[simp] theorem logEnergies_cols (lib : Librosa K) (S : Grid K) (sr : ℕ) :
    (logEnergies lib S sr).cols = S.cols := rfl

theorem logEnergies_entry (lib : Librosa K) (S : Grid K) (sr band frame : ℕ) :
    (logEnergies lib S sr).entry band frame = lib.log10 (energy lib S sr band frame + 1) := rfl

/-- The novelty of one frame: the rise of every band above its neighbourhood `lag` frames
before. -/
def novelty (lib : Librosa K) (S : Grid K) (sr hop frame : ℕ) : K :=
  if frame < lag lib S hop then 0
  else rises (filters lib S sr).cols (fun band => (logEnergies lib S sr).entry band frame)
    fun band => (maximumFilter3 (logEnergies lib S sr)).entry band (frame - lag lib S hop)

section Filterbank

variable (lib : Librosa K) (sr nFft : ℕ)

theorem one_le_frameLag (hop : ℕ) : 1 ≤ frameLag lib nFft hop := by
  unfold frameLag
  split
  · exact le_rfl
  · exact le_max_left _ _

omit [FloorRing K] in
theorem writeTriangle_nonneg [IsStrictOrderedRing K] {filterbank : Grid K}
    (h : ∀ i j, 0 ≤ filterbank.entry i j) (left center right band : ℕ) :
    ∀ i j, 0 ≤ (writeTriangle filterbank left center right band).entry i j := by
  apply setColumnSlice_nonneg
  · exact setColumnSlice_nonneg h (linspace_nonneg le_rfl zero_le_one _)
  · exact linspace_nonneg zero_le_one le_rfl _

/-- What holds of empty filters, and goes on to hold when a filter is written, holds of all. -/
theorem quarterToneFilterbank_rec {P : Grid K → Prop}
    (hzeros : ∀ bands, P (.zeros (nFft / 2 + 1) bands))
    (hwrite : ∀ filterbank left center right band, P filterbank →
      P (writeTriangle filterbank left center right band)) :
    P (quarterToneFilterbank lib sr nFft) := by
  have hfold (triples : List ((ℕ × ℕ × ℕ) × ℕ)) : ∀ filterbank, P filterbank →
      P (triples.foldl (fun filterbank triple => writeTriangle filterbank triple.1.1 triple.1.2.1
        triple.1.2.2 triple.2) filterbank) := by
    induction triples with
    | nil => exact fun _ h => h
    | cons triple triples ih => exact fun _ h => ih _ (hwrite _ _ _ _ _ h)
  unfold quarterToneFilterbank
  dsimp only
  split
  · exact hzeros 0
  · exact hfold _ _ (hzeros _)

theorem quarterToneFilterbank_nonneg [IsStrictOrderedRing K] :
    ∀ i j, 0 ≤ (quarterToneFilterbank lib sr nFft).entry i j := by
  apply quarterToneFilterbank_rec (P := fun filterbank => ∀ i j, 0 ≤ filterbank.entry i j)
  · exact fun _ _ _ => le_rfl
  · exact fun _ left center right band h => writeTriangle_nonneg h left center right band

theorem quarterToneFilterbank_rows :
    (quarterToneFilterbank lib sr nFft).rows = nFft / 2 + 1 := by
  apply quarterToneFilterbank_rec (P := fun filterbank => filterbank.rows = nFft / 2 + 1)
  · exact fun _ => rfl
  · exact fun _ _ _ _ _ h => h

/-- A spectrum without a bin strictly inside it has no filter. -/
theorem quarterToneFilterbank_zero : (quarterToneFilterbank lib sr 0).cols = 0 := by
  have hbins : centerBins lib sr 0 = [] := by
    rw [centerBins, List.map_eq_nil_iff, List.filter_eq_nil_iff]
    intro bin _ hin
    have hin := of_decide_eq_true hin
    omega
  rw [quarterToneFilterbank, hbins]
  rfl

theorem rows_of_filters {S : Grid K} (hbands : (filters lib S sr).cols ≠ 0) :
    (filters lib S sr).rows = S.rows := by
  rw [filters, quarterToneFilterbank_rows]
  rcases Nat.eq_zero_or_pos S.rows with hzero | hpos
  · rw [filters, hzero] at hbands
    exact (hbands (quarterToneFilterbank_zero lib sr)).elim
  · omega

end Filterbank

section Frames

variable {lib : Librosa K} {S S' : Grid K} {sr hop frame frame' : ℕ}

theorem map_novelty_eq_zeros {n : ℕ} (hzero : ∀ frame < n, novelty lib S sr hop frame = 0) :
    (List.range n).map (novelty lib S sr hop) = List.replicate n 0 := by
  apply List.eq_replicate_iff.mpr
  constructor
  · simp
  · intro x hx
    obtain ⟨frame, hframe, rfl⟩ := List.mem_map.mp hx
    exact hzero frame (List.mem_range.mp hframe)

theorem novelty_of_lt (h : frame < lag lib S hop) : novelty lib S sr hop frame = 0 := if_pos h

theorem novelty_of_no_filters (h : (filters lib S sr).cols = 0) :
    novelty lib S sr hop frame = 0 := by
  unfold novelty
  split
  · rfl
  · rw [h]
    rfl

/-- The novelty is computed frame by frame. -/
theorem superflux_eq (lib : Librosa K) (S : Grid K) (sr hop : ℕ) :
    superflux lib S sr hop = (List.range S.cols).map (novelty lib S sr hop) := by
  unfold superflux
  dsimp only
  rw [← filters, ← logEnergies, ← lag, logEnergies_cols, logEnergies_rows]
  split
  next hnone => exact (map_novelty_eq_zeros fun _ _ => novelty_of_no_filters hnone).symm
  next hbands =>
    split
    next hshort =>
      exact (map_novelty_eq_zeros fun frame hframe => novelty_of_lt (hframe.trans_le hshort)).symm
    next hlong =>
      have hcols : S.cols = lag lib S hop + (S.cols - lag lib S hop) :=
        (Nat.add_sub_cancel' (not_le.mp hlong).le).symm
      conv_rhs => rw [hcols, List.range_add, List.map_append, List.map_map]
      rw [map_novelty_eq_zeros fun _ => novelty_of_lt]
      apply congrArg (List.replicate (lag lib S hop) 0 ++ ·)
      apply List.map_congr_left
      intro frame _
      rw [Function.comp_apply, novelty, if_neg (by omega), Nat.add_sub_cancel_left]
      rfl

theorem getD_superflux (hframe : frame < S.cols) :
    (superflux lib S sr hop).getD frame 0 = novelty lib S sr hop frame := by
  rw [superflux_eq, List.getD_eq_getElem _ _ (by simpa using hframe), List.getElem_map,
    List.getElem_range]

theorem filters_congr (hrows : S'.rows = S.rows) : filters lib S' sr = filters lib S sr := by
  rw [filters, hrows, filters]

theorem lag_congr (hrows : S'.rows = S.rows) : lag lib S' hop = lag lib S hop := by
  rw [lag, hrows, lag]

end Frames

section Rises

variable [IsStrictOrderedRing K] {lib : Librosa K} {S S' : Grid K} {sr hop band near : ℕ}
  {frame frame' : ℕ}

theorem energy_nonneg (hbands : (filters lib S sr).cols ≠ 0)
    (hcolumn : ∀ k < S.rows, 0 ≤ S.entry k frame) : 0 ≤ energy lib S sr band frame := by
  apply transposeMul_nonneg (quarterToneFilterbank_nonneg lib sr _)
  rwa [← filters, rows_of_filters lib sr hbands]

theorem energy_mono (hrows : S'.rows = S.rows) (hbands : (filters lib S sr).cols ≠ 0)
    (hle : ∀ k < S.rows, S.entry k frame ≤ S'.entry k frame') :
    energy lib S sr band frame ≤ energy lib S' sr band frame' := by
  unfold energy
  rw [filters_congr hrows]
  apply transposeMul_mono (quarterToneFilterbank_nonneg lib sr _)
  rwa [← filters, rows_of_filters lib sr hbands]

variable (hlog : StrictMonoOn lib.log10 (Set.Ici 1))

include hlog in
theorem logEnergies_le_iff (h : 0 ≤ energy lib S sr band frame)
    (h' : 0 ≤ energy lib S' sr near frame') :
    (logEnergies lib S sr).entry band frame ≤ (logEnergies lib S' sr).entry near frame' ↔
      energy lib S sr band frame ≤ energy lib S' sr near frame' := by
  have hone {x : K} (hx : 0 ≤ x) : x + 1 ∈ Set.Ici (1 : K) := le_add_of_nonneg_left hx
  rw [logEnergies_entry, logEnergies_entry, hlog.le_iff_le (hone h) (hone h')]
  exact add_le_add_iff_right 1

include hlog in
/-- A louder frame rises more, and a louder earlier frame leaves less of the rise. -/
theorem novelty_mono (hrows : S'.rows = S.rows)
    (hnow : ∀ k < S.rows, 0 ≤ S.entry k frame ∧ S.entry k frame ≤ S'.entry k frame)
    (hbefore : ∀ k < S.rows, 0 ≤ S'.entry k (frame - lag lib S hop) ∧
      S'.entry k (frame - lag lib S hop) ≤ S.entry k (frame - lag lib S hop)) :
    novelty lib S sr hop frame ≤ novelty lib S' sr hop frame := by
  by_cases hbands : (filters lib S sr).cols = 0
  · rw [novelty_of_no_filters hbands, novelty_of_no_filters (by rwa [filters_congr hrows])]
  have hbands' : (filters lib S' sr).cols ≠ 0 := by rwa [filters_congr hrows]
  unfold novelty
  rw [lag_congr hrows, filters_congr hrows]
  split
  · exact le_rfl
  have hlevel (band : ℕ) : (logEnergies lib S sr).entry band frame ≤
      (logEnergies lib S' sr).entry band frame := by
    rw [logEnergies_le_iff hlog (energy_nonneg hbands fun k hk => (hnow k hk).1)
      (energy_nonneg hbands' fun k hk => by
        obtain ⟨h0, hle⟩ := hnow k (hrows ▸ hk)
        exact h0.trans hle)]
    exact energy_mono hrows hbands fun k hk => (hnow k hk).2
  have hlevel' (band : ℕ) : (logEnergies lib S' sr).entry band (frame - lag lib S hop) ≤
      (logEnergies lib S sr).entry band (frame - lag lib S hop) := by
    rw [logEnergies_le_iff hlog
      (energy_nonneg hbands' fun k hk => (hbefore k (hrows ▸ hk)).1)
      (energy_nonneg hbands fun k hk => (hbefore k hk).1.trans (hbefore k hk).2)]
    exact energy_mono hrows.symm hbands' fun k hk => (hbefore k (hrows ▸ hk)).2
  have hsame : (logEnergies lib S' sr).rows = (logEnergies lib S sr).rows := by
    rw [logEnergies_rows, logEnergies_rows, filters_congr hrows]
  apply rises_mono
  · exact fun band _ => hlevel band
  · intro band hband
    apply maximumFilter3_mono hsame (fun near _ => hlevel' near)
    rwa [hsame, logEnergies_rows]

include hlog in
theorem novelty_eq_zero_iff (hS : S.Nonneg) (hlag : lag lib S hop ≤ frame)
    (hframe : frame < S.cols) : novelty lib S sr hop frame = 0 ↔
      ∀ band < (filters lib S sr).cols, ∃ near < (filters lib S sr).cols,
        near ≤ band + 1 ∧ band ≤ near + 1 ∧
          energy lib S sr band frame ≤ energy lib S sr near (frame - lag lib S hop) := by
  rw [novelty, if_neg hlag.not_gt, rises_eq_zero_iff]
  apply forall₂_congr
  intro band hband
  have hbands := Nat.ne_zero_of_lt hband
  rw [le_maximumFilter3_iff (by rwa [logEnergies_rows]), logEnergies_rows]
  apply exists_congr
  intro near
  rw [logEnergies_le_iff hlog (energy_nonneg hbands fun k hk => hS k hk frame hframe)
    (energy_nonneg hbands fun k hk => hS k hk _ (by omega))]

include hlog in
/-- There is no novelty in a frame that falls everywhere. -/
theorem novelty_of_fall (hS : S.Nonneg) (hlag : lag lib S hop ≤ frame) (hframe : frame < S.cols)
    (hfall : ∀ k < S.rows, S.entry k frame ≤ S.entry k (frame - lag lib S hop)) :
    novelty lib S sr hop frame = 0 := by
  rw [novelty_eq_zero_iff hlog hS hlag hframe]
  intro band hband
  exact ⟨band, hband, by omega, by omega, energy_mono rfl (Nat.ne_zero_of_lt hband) hfall⟩

/-- What `flux` says of a spectrogram: nothing on the first frames, which have no earlier one to
compare with, and then the rises of the filtered energies. -/
structure ReportsRises (lib : Librosa K) (S : Grid K) (sr hop : ℕ) (flux : List K) : Prop where
  length : flux.length = S.cols
  nonneg : ∀ x ∈ flux, 0 ≤ x
  lag_pos : 1 ≤ lag lib S hop
  first : ∀ frame < lag lib S hop, flux.getD frame 0 = 0
  short : S.cols ≤ lag lib S hop ∨ (filters lib S sr).cols = 0 → ∀ x ∈ flux, x = 0
  /-- A frame is compared with one earlier frame, and with nothing else. -/
  columns : ∀ (S' : Grid K) (frame : ℕ), S'.rows = S.rows → lag lib S hop ≤ frame →
    frame < S.cols → frame < S'.cols →
    (∀ k < S.rows, S'.entry k frame = S.entry k frame ∧
      S'.entry k (frame - lag lib S hop) = S.entry k (frame - lag lib S hop)) →
    (superflux lib S' sr hop).getD frame 0 = flux.getD frame 0
  /-- More energy in the frame, or less in the earlier one, does not lower the novelty. -/
  mono : ∀ (S' : Grid K) (frame : ℕ), S'.Nonneg → S'.rows = S.rows → lag lib S hop ≤ frame →
    frame < S.cols → frame < S'.cols → (∀ k < S.rows, S.entry k frame ≤ S'.entry k frame) →
    (∀ k < S.rows, S'.entry k (frame - lag lib S hop) ≤ S.entry k (frame - lag lib S hop)) →
    flux.getD frame 0 ≤ (superflux lib S' sr hop).getD frame 0
  /-- There is no novelty when no band exceeds the earlier energy around it. -/
  zero_iff : ∀ frame, lag lib S hop ≤ frame → frame < S.cols →
    (flux.getD frame 0 = 0 ↔ ∀ band < (filters lib S sr).cols,
      ∃ near < (filters lib S sr).cols, near ≤ band + 1 ∧ band ≤ near + 1 ∧
        energy lib S sr band frame ≤ energy lib S sr near (frame - lag lib S hop))
  fall : ∀ frame, lag lib S hop ≤ frame → frame < S.cols →
    (∀ k < S.rows, S.entry k frame ≤ S.entry k (frame - lag lib S hop)) →
    flux.getD frame 0 = 0

include hlog in
/-- The novelty of a magnitude spectrogram reports genuine rises only. -/
theorem superflux_reportsRises (hS : S.Nonneg) (sr hop : ℕ) :
    ReportsRises lib S sr hop (superflux lib S sr hop) := by
  constructor
  case length => exact length_superflux lib S sr hop
  case nonneg =>
    rw [superflux_eq]
    intro x hx
    obtain ⟨frame, -, rfl⟩ := List.mem_map.mp hx
    unfold novelty
    split
    · exact le_rfl
    · exact rises_nonneg
  case lag_pos => exact one_le_frameLag lib _ hop
  case first =>
    intro frame hlt
    rcases Nat.lt_or_ge frame S.cols with hframe | hout
    · rw [getD_superflux hframe, novelty_of_lt hlt]
    · exact List.getD_eq_default _ _ (by rwa [length_superflux])
  case short =>
    rw [superflux_eq]
    intro hshort x hx
    obtain ⟨frame, hframe, rfl⟩ := List.mem_map.mp hx
    rcases hshort with hcols | hnone
    · exact novelty_of_lt ((List.mem_range.mp hframe).trans_le hcols)
    · exact novelty_of_no_filters hnone
  case columns =>
    intro S' frame hrows hlag hframe hframe' hsame
    have hnow (k : ℕ) (hk : k < S.rows) := hS k hk frame hframe
    have hbefore (k : ℕ) (hk : k < S.rows) := hS k hk (frame - lag lib S hop) (by omega)
    rw [getD_superflux hframe, getD_superflux hframe']
    apply le_antisymm
    · apply novelty_mono hlog hrows.symm
      · intro k hk
        obtain ⟨he, -⟩ := hsame k (hrows ▸ hk)
        exact ⟨he ▸ hnow k (hrows ▸ hk), he.le⟩
      · intro k hk
        rw [lag_congr hrows]
        obtain ⟨-, he⟩ := hsame k (hrows ▸ hk)
        exact ⟨hbefore k (hrows ▸ hk), he.ge⟩
    · apply novelty_mono hlog hrows
      · exact fun k hk => ⟨hnow k hk, (hsame k hk).1.ge⟩
      · exact fun k hk => ⟨(hsame k hk).2 ▸ hbefore k hk, (hsame k hk).2.le⟩
  case mono =>
    intro S' frame hS' hrows hlag hframe hframe' hnow hbefore
    rw [getD_superflux hframe, getD_superflux hframe']
    apply novelty_mono hlog hrows
    · exact fun k hk => ⟨hS k hk frame hframe, hnow k hk⟩
    · exact fun k hk => ⟨hS' k (hrows ▸ hk) _ (by omega), hbefore k hk⟩
  case zero_iff =>
    intro frame hlag hframe
    rw [getD_superflux hframe]
    exact novelty_eq_zero_iff hlog hS hlag hframe
  case fall =>
    intro frame hlag hframe hfall
    rw [getD_superflux hframe]
    exact novelty_of_fall hlog hS hlag hframe hfall

end Rises

namespace Sample

/-- Logarithms and powers that are exact where a short spectrum needs them. -/
def tuned : Librosa ℚ :=
  { hearing [] fun _ => 0 with
    hannWindow := fun _ => [0, 3 / 20, 1 / 2, 17 / 20, 1, 17 / 20, 1 / 2, 3 / 20]
    log2 := fun _ => 3
    exp2 := fun x => (1 + Int.fract x) * 2 ^ ⌊x⌋.toNat
    log10 := fun x => (x - 1) / 9 }

def jump : Grid ℚ := ⟨5, 3, fun bin frame => if bin = 2 ∧ frame = 1 then 9 else 0⟩

theorem jump_nonneg : jump.Nonneg := by
  intro bin _ frame _
  unfold jump
  dsimp only
  split <;> norm_num

theorem tuned_log10_strictMono : StrictMonoOn tuned.log10 (Set.Ici 1) := by
  intro x _ y _ hxy
  exact div_lt_div_of_pos_right (sub_lt_sub_right hxy 1) (by norm_num)

end Sample

open Sample in
theorem superflux_reportsRises_sample :
    ReportsRises tuned jump 440 1 (superflux tuned jump 440 1) :=
  superflux_reportsRises tuned_log10_strictMono jump_nonneg 440 1

open Sample in
example : superflux tuned jump 440 1 = [0, 1, 0] := by decide +kernel

end Maps
