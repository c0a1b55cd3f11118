import BeatmapBackend.Maps.Holds
import BeatmapBackend.Maps.Lanes
import BeatmapBackend.Maps.Offsets

/-! The extraction of the notes of a stem as a whole: when it finds none, and that no stage of it
fails otherwise, so that the notes are built one by one. -/
namespace Maps
open Numerics

variable {K : Type} [Field K] [LinearOrder K] [FloorRing K] {lib : Librosa K} {y : List K}
  {sr : ℕ} {bpm laneCount : ℤ}

/-- The stem is empty or silent, or no onset stands out of it. -/
def NoOnsets (lib : Librosa K) (y : List K) (sr : ℕ) : Prop :=
  ∀ signal, normalizeLevel y = .ok (some signal) →
    pickOnsets lib (superflux lib (lib.stftMagnitude signal nFft hopLength) sr hopLength) sr
      hopLength = []

theorem normalizeLevel_isOk (hy : y ≠ []) : ∃ level, normalizeLevel y = .ok level := by
  unfold normalizeLevel
  rw [if_neg hy]
  dsimp only
  split
  · exact ⟨_, rfl⟩
  · exact ⟨_, rfl⟩

theorem buildMelodyNotes_nil : buildMelodyNotes lib [] sr bpm laneCount =
    .error (indexError "index -1 is out of bounds for axis 0 with size 0") := rfl

/-- A stem without onsets has no notes. -/
theorem buildMelodyNotes_of_noOnsets (hy : y ≠ []) (hnone : NoOnsets lib y sr) :
    buildMelodyNotes lib y sr bpm laneCount = .ok [] := by
  obtain ⟨level, hlevel⟩ := normalizeLevel_isOk hy
  cases level with
  | none => exact buildMelodyNotes_of_silent hlevel sr bpm laneCount
  | some signal =>
    rw [buildMelodyNotes_of_signal hlevel]
    exact if_pos (hnone signal hlevel)

theorem buildMelodyNote_isOk (onset offset : K) (lane : ℕ) (energy : K) (hbpm : bpm ≠ 0) :
    ∃ n, buildMelodyNote onset offset lane energy bpm = .ok n := by
  simp only [buildMelodyNote, calculateMelodyCombo, floorDiv, if_neg hbpm]
  exact ⟨_, rfl⟩

variable [IsStrictOrderedRing K]

/-- Every stage before the last ends well, so that the notes are built one by one. -/
theorem melodyNotesFrom_eq_mapM (hdoc : lib.Documented) (hlib : lib.DocumentedBands)
    {signal flux onsetTimes : List K} (hcols : 0 < (lib.stftMagnitude signal nFft hopLength).cols)
    (honsets : onsetTimes ≠ []) (hlanes : 1 ≤ laneCount) :
    ∃ stages : List (K × K × ℕ × K), stages ≠ [] ∧
      melodyNotesFrom lib signal (lib.stftMagnitude signal nFft hopLength) flux onsetTimes sr
        hopLength bpm laneCount =
      stages.mapM fun note => buildMelodyNote note.1 note.2.1 note.2.2.1 note.2.2.2 bpm := by
  have hpos := List.length_pos_iff.mpr honsets
  obtain ⟨offsets, hoffsets, hlen⟩ := estimateOffsets_isOk sr hopLength hdoc hlib hcols
    onsetTimes
  obtain ⟨centroids, hcentroids, hlen'⟩ := noteCentroids_isOk sr hdoc hcols hlen.symm
  have hcentroidsNe : centroids ≠ [] := List.ne_nil_of_length_pos (hlen' ▸ hpos)
  have hlanes' : spectralCentroidLanes lib signal sr onsetTimes offsets laneCount hopLength =
      .ok (centroids.map fun c => digitize c (innerQuantiles centroids laneCount.toNat)) := by
    rw [spectralCentroidLanes_eq hlen.symm, hcentroids]
    exact centroidLanes_eq hcentroidsNe hlanes
  refine ⟨onsetTimes.zip (offsets.zip ((centroids.map fun c =>
    digitize c (innerQuantiles centroids laneCount.toNat)).zip
      (onsetStrengths flux sr onsetTimes hopLength))), ?_, ?_⟩
  · apply List.ne_nil_of_length_pos
    simp only [List.length_zip, List.length_map, length_onsetStrengths]
    omega
  · have hlengths : ¬ (offsets.length ≠ onsetTimes.length ∨
        (centroids.map fun c => digitize c (innerQuantiles centroids laneCount.toNat)).length ≠
          onsetTimes.length ∨
        (onsetStrengths flux sr onsetTimes hopLength).length ≠ onsetTimes.length) := by
      simp only [List.length_map, length_onsetStrengths]
      omega
    unfold melodyNotesFrom
    simp only [hoffsets, hlanes', bind, Except.bind, if_neg hlengths]

omit [IsStrictOrderedRing K] in
/-- A spectrogram with an onset has a frame. -/
theorem cols_pos_of_pickOnsets (hdoc : lib.Documented) {S : Grid K} {hop : ℕ}
    (honsets : pickOnsets lib (superflux lib S sr hop) sr hop ≠ []) : 0 < S.cols := by
  obtain ⟨frames, hframes, -, hlt⟩ := pickOnsets_eq hdoc (superflux lib S sr hop) sr hop
  have hne : frames ≠ [] := fun hnil => honsets (by rw [hframes, hnil, List.map_nil])
  obtain ⟨frame, hframe⟩ := List.exists_mem_of_ne_nil frames hne
  have hframe := hlt frame hframe
  rw [length_superflux] at hframe
  omega

/-- The notes of a stem with onsets are built one by one. -/
theorem buildMelodyNotes_eq_mapM (bpm : ℤ) (hdoc : lib.Documented) (hlib : lib.DocumentedBands)
    (hlanes : 1 ≤ laneCount) (hsome : ¬ NoOnsets lib y sr) :
    ∃ stages : List (K × K × ℕ × K), stages ≠ [] ∧
      buildMelodyNotes lib y sr bpm laneCount =
        stages.mapM fun note => buildMelodyNote note.1 note.2.1 note.2.2.1 note.2.2.2 bpm := by
  unfold NoOnsets at hsome
  push Not at hsome
  obtain ⟨signal, hlevel, honsets⟩ := hsome
  rw [buildMelodyNotes_of_signal hlevel]
  dsimp only
  rw [if_neg honsets]
  exact melodyNotesFrom_eq_mapM hdoc hlib (cols_pos_of_pickOnsets hdoc honsets) honsets hlanes

/-- The notes of a stem exist once there is a sample, a lane and a tempo. -/
theorem buildMelodyNotes_isOk (hdoc : lib.Documented) (hlib : lib.DocumentedBands) (hy : y ≠ [])
    (hbpm : bpm ≠ 0) (hlanes : 1 ≤ laneCount) :
    ∃ notes, buildMelodyNotes lib y sr bpm laneCount = .ok notes := by
  by_cases hnone : NoOnsets lib y sr
  · exact ⟨[], buildMelodyNotes_of_noOnsets hy hnone⟩
  · obtain ⟨stages, -, heq⟩ := buildMelodyNotes_eq_mapM bpm hdoc hlib hlanes hnone
    rw [heq]
    exact except_mapM_isOk fun note _ =>
      buildMelodyNote_isOk note.1 note.2.1 note.2.2.1 note.2.2.2 hbpm

end Maps
