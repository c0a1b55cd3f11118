import BeatmapBackend.Collections.Spacing
import BeatmapBackend.Maps.Energies
import BeatmapBackend.Maps.Novelty
import BeatmapBackend.Maps.Offsets
import BeatmapBackend.Maps.OnsetFloor

/-! What the notes of a melody stem stand for. Each is at a frame in which some band rises above
all that was near it a short while before, as strong as that frame is among all frames, and no
two notes are closer than thirty milliseconds. -/
namespace Maps
open Numerics Collections

variable {K : Type} [Field K] [LinearOrder K]

/-- Magnitudes are not negative, and the logarithm is strictly monotone from one on. -/
structure Librosa.DocumentedSpectra (lib : Librosa K) : Prop where
  magnitude : ∀ y n hop, (lib.stftMagnitude y n hop).Nonneg
  log10 : StrictMonoOn lib.log10 (Set.Ici 1)

variable [FloorRing K]

/-- Between two picked frames there are at least `wait` others, by default as many as fit into
thirty milliseconds. Audio has a sample rate. -/
structure Librosa.DocumentedSpacing (lib : Librosa K) : Prop where
  rate_pos : ∀ audio, 0 < (lib.load audio none).2
  waits : ∀ args : OnsetDetectArgs K, args.backtrack = false → ∀ wait, args.wait = some wait →
    (lib.onsetDetect args).Pairwise fun a b => a + wait < b
  waits_default : ∀ args : OnsetDetectArgs K, args.backtrack = false → args.wait = none →
    (lib.onsetDetect args).Pairwise fun a b => a + ⌊(3 / 100 * args.sr / args.hopLength : K)⌋₊ < b

/-- The frame that a note of a spectrogram stands for. -/
structure StandsFor (lib : Librosa K) (S : Grid K) (sr : ℕ) (n : Note K) (frame : ℕ) : Prop where
  time : n.time = roundHalfEven (frameTime sr hopLength frame * 1000 : K)
  lag_le : lag lib S hopLength ≤ frame
  lt_cols : frame < S.cols
  /-- Some band is stronger than it and its neighbours were `lag` frames before. -/
  rise : ∃ band < (filters lib S sr).cols, ∀ near < (filters lib S sr).cols,
    near ≤ band + 1 → band ≤ near + 1 →
      energy lib S sr near (frame - lag lib S hopLength) < energy lib S sr band frame
  /-- So some bin is stronger than it was. -/
  bin : ∃ k < S.rows, S.entry k (frame - lag lib S hopLength) < S.entry k frame
  loud : 3 < novelty lib S sr hopLength frame
  energy : ∀ loudest < S.cols,
    (∀ other < S.cols, novelty lib S sr hopLength other ≤ novelty lib S sr hopLength loudest) →
      n.energy = novelty lib S sr hopLength frame / novelty lib S sr hopLength loudest

variable [IsStrictOrderedRing K] {lib : Librosa K} {S : Grid K} {sr : ℕ}

section Spacing

variable {hop : ℕ}

/-- Onsets more than thirty milliseconds apart stay so when they are rounded. -/
theorem millis_apart (hsr : 0 < sr) (hhop : 0 < hop) {a b : ℕ}
    (h : (a : K) + 3 / 100 * sr / hop < b) :
    roundHalfEven (frameTime sr hop a * 1000 : K) + 30 ≤
      roundHalfEven (frameTime sr hop b * 1000 : K) := by
  have hsr : (0 : K) < sr := by exact_mod_cast hsr
  have hhop : (0 : K) < hop := by exact_mod_cast hhop
  have hseconds : frameTime sr hop a + 3 / 100 < (frameTime sr hop b : K) := by
    have hwait : (3 / 100 : K) = 3 / 100 * sr / hop * hop / sr := by field_simp
    unfold frameTime
    rw [hwait, ← add_div, ← add_mul]
    exact div_lt_div_of_pos_right (mul_lt_mul_of_pos_right h hhop) hsr
  have hfrom := (roundHalfEven_bounds (frameTime sr hop a * 1000 : K)).2
  have hto := (roundHalfEven_bounds (frameTime sr hop b * 1000 : K)).1
  have hapart : (roundHalfEven (frameTime sr hop a * 1000 : K) + 29 : K) <
      roundHalfEven (frameTime sr hop b * 1000 : K) := by linarith
  have hapart : roundHalfEven (frameTime sr hop a * 1000 : K) + 29 <
      roundHalfEven (frameTime sr hop b * 1000 : K) := by exact_mod_cast hapart
  omega

/-- The melody waits for the nearest number of frames, which may be half a frame less. -/
theorem millis_apart_of_round (hsr : 0 < sr) (hhop : 0 < hop) {a b : ℕ}
    (h : a + (roundHalfEven (onsetWaitS * sr / hop : K)).toNat < b) :
    roundHalfEven (frameTime sr hop a * 1000 : K) + 30 ≤
      roundHalfEven (frameTime sr hop b * 1000 : K) := by
  refine millis_apart hsr hhop ?_
  have hwait := (roundHalfEven_bounds (onsetWaitS * sr / hop : K)).1
  have hle : (a : ℤ) + roundHalfEven (onsetWaitS * sr / hop : K) + 1 ≤ b := by omega
  have hcast : (a : K) + roundHalfEven (onsetWaitS * sr / hop : K) + 1 ≤ b := by
    exact_mod_cast hle
  unfold onsetWaitS at hwait hcast
  linarith

/-- The kick detector waits for the frames that fit. -/
theorem millis_apart_of_floor (hsr : 0 < sr) (hhop : 0 < hop) {a b : ℕ}
    (h : a + ⌊(3 / 100 * sr / hop : K)⌋₊ < b) :
    roundHalfEven (frameTime sr hop a * 1000 : K) + 30 ≤
      roundHalfEven (frameTime sr hop b * 1000 : K) := by
  refine millis_apart hsr hhop ?_
  have hfits := Nat.lt_floor_add_one (3 / 100 * sr / hop : K)
  have hcast : (a : K) + ⌊(3 / 100 * sr / hop : K)⌋₊ + 1 ≤ b := by exact_mod_cast h
  linarith

omit [IsStrictOrderedRing K] in
/-- The onsets are frames that lie apart. -/
theorem pickOnsets_apart (hdoc : lib.Documented) (hspacing : lib.DocumentedSpacing)
    (novelty : List K) (sr hop : ℕ) : ∃ frames : List ℕ,
      pickOnsets lib novelty sr hop = frames.map (frameTime sr hop) ∧
        frames.Pairwise fun a b => a + (roundHalfEven (onsetWaitS * sr / hop : K)).toNat < b :=
  ⟨_, List.map_congr_left fun frame _ => hdoc.framesToTime_eq frame sr hop,
    hspacing.waits _ rfl _ rfl⟩

end Spacing

section Rise

variable {frame : ℕ}

omit [IsStrictOrderedRing K] in
theorem lag_le_of_novelty (h : novelty lib S sr hopLength frame ≠ 0) :
    lag lib S hopLength ≤ frame := by
  by_contra hlt
  exact h (novelty_of_lt (not_le.mp hlt))

/-- A frame with novelty has a band that rises. -/
theorem rise_of_novelty (hspectra : lib.DocumentedSpectra) (hS : S.Nonneg)
    (hlag : lag lib S hopLength ≤ frame) (hframe : frame < S.cols)
    (h : novelty lib S sr hopLength frame ≠ 0) :
    ∃ band < (filters lib S sr).cols, ∀ near < (filters lib S sr).cols,
      near ≤ band + 1 → band ≤ near + 1 →
        energy lib S sr near (frame - lag lib S hopLength) < energy lib S sr band frame := by
  rw [Ne, novelty_eq_zero_iff hspectra.log10 hS hlag hframe] at h
  push Not at h
  exact h

theorem bin_of_novelty (hspectra : lib.DocumentedSpectra) (hS : S.Nonneg)
    (hlag : lag lib S hopLength ≤ frame) (hframe : frame < S.cols)
    (h : novelty lib S sr hopLength frame ≠ 0) :
    ∃ k < S.rows, S.entry k (frame - lag lib S hopLength) < S.entry k frame := by
  by_contra hnone
  push Not at hnone
  exact h (novelty_of_fall hspectra.log10 hS hlag hframe hnone)

/-- The energy of an onset is its novelty among that of all frames. -/
theorem strengthAt_superflux (hsr : 0 < sr) (hframe : frame < S.cols) {loudest : ℕ}
    (hloudest : loudest < S.cols)
    (hmax : ∀ other < S.cols,
      novelty lib S sr hopLength other ≤ novelty lib S sr hopLength loudest)
    (hpos : 0 < novelty lib S sr hopLength frame) {o : KickOnseter K}
    (hodf : o.odf = some (superflux lib S sr hopLength))
    (hrate : o.frameRate = some ((sr : K) / hopLength)) :
    o.strengthAt (frameTime sr hopLength frame) =
      novelty lib S sr hopLength frame / novelty lib S sr hopLength loudest := by
  have hpeak : 0 < novelty lib S sr hopLength loudest := hpos.trans_le (hmax frame hframe)
  have hgreatest : IsGreatest {v | v ∈ superflux lib S sr hopLength}
      (novelty lib S sr hopLength loudest) := by
    rw [superflux_eq]
    refine ⟨List.mem_map_of_mem (List.mem_range.mpr hloudest), fun v hv => ?_⟩
    obtain ⟨other, hother, rfl⟩ := List.mem_map.mp hv
    exact hmax other (List.mem_range.mp hother)
  have hlt : frame < (superflux lib S sr hopLength).length := by rwa [length_superflux]
  rw [strengthAt_frameTime hodf hrate hsr (by decide) hgreatest hpeak hlt,
    ← List.getD_eq_getElem _ 0 hlt, getD_superflux hframe, clip,
    max_eq_left (div_nonneg hpos.le hpeak.le),
    min_eq_left ((div_le_one hpeak).mpr (hmax frame hframe))]

end Rise

variable {y : List K} {bpm laneCount : ℤ} {notes : List (Note K)}

def listening (lib : Librosa K) (S : Grid K) (sr : ℕ) : KickOnseter K :=
  { KickOnseter.new sr with
    odf := some (superflux lib S sr hopLength)
    frameRate := some ((sr : K) / hopLength) }

omit [IsStrictOrderedRing K] in
/-- A note has the time of an onset, and the strength of the novelty there as its energy. -/
theorem of_mem_melodyNotesFrom {signal flux onsetTimes : List K} {hop : ℕ} {o : KickOnseter K}
    (h : melodyNotesFrom lib signal S flux onsetTimes sr hop bpm laneCount = .ok notes)
    (hodf : o.odf = some flux) (hrate : o.frameRate = some ((sr : K) / hop)) :
    notes.map (fun n => (n.time, n.energy)) =
      onsetTimes.map fun t => (roundHalfEven (t * 1000), o.strengthAt t) := by
  obtain ⟨offsets, lanes, -, -, hoffsets, hlanes, henergies, h⟩ := melodyNotesFrom_eq_ok.mp h
  have hfields := except_mapM_map h (g := fun n => (n.time, n.energy))
    (k := fun note => (roundHalfEven (note.1 * 1000), note.2.2.2)) fun note _ n hn => by
      obtain ⟨beats, rfl⟩ := buildMelodyNote_cases hn
      rfl
  rw [hfields, onsetStrengths_eq hodf hrate]
  refine List.ext_getElem (by simp [hoffsets, hlanes]) fun i hi hi' => ?_
  simp

/-- Two notes are thirty milliseconds apart. -/
theorem melodyNotes_times (hdoc : lib.Documented) (hspacing : lib.DocumentedSpacing)
    (hsr : 0 < sr) (h : buildMelodyNotes lib y sr bpm laneCount = .ok notes) :
    notes.Pairwise fun m n => m.time + 30 ≤ n.time := by
  rcases buildMelodyNotes_eq_ok h with rfl | ⟨signal, -, h⟩
  · exact List.Pairwise.nil
  dsimp only at h
  set S := lib.stftMagnitude signal nFft hopLength
  have hfields := of_mem_melodyNotesFrom (o := listening lib S sr) h rfl rfl
  obtain ⟨frames, hframes, hapart⟩ := pickOnsets_apart hdoc hspacing
    (superflux lib S sr hopLength) sr hopLength
  have htimes : notes.map Note.time =
      frames.map fun frame => roundHalfEven (frameTime sr hopLength frame * 1000 : K) := by
    have hfst := congrArg (List.map Prod.fst) hfields
    rw [hframes] at hfst
    simpa only [List.map_map, Function.comp_def] using hfst
  have hpairwise : (notes.map Note.time).Pairwise fun s t => s + 30 ≤ t := by
    rw [htimes]
    exact List.Pairwise.map _ (fun a b hab => millis_apart_of_round hsr (by decide) hab) hapart
  exact List.pairwise_map.mp hpairwise

/-- The novelty of an onset frame exceeds the fixed level. -/
theorem novelty_of_onset (hdoc : lib.Documented) (hpeaks : lib.DocumentedPeaks) (hsr : 0 < sr)
    {frame : ℕ} (h : frameTime sr hopLength frame ∈
      pickOnsets lib (superflux lib S sr hopLength) sr hopLength) :
    frame < S.cols ∧ 3 < novelty lib S sr hopLength frame := by
  obtain ⟨onset, honset⟩ := pickOnsets_isOnset hdoc hpeaks h
  have hhop : 0 < hopLength := by decide
  have hlt {a b : ℕ} (heq : (frameTime sr hopLength a : K) = frameTime sr hopLength b) :
      ¬ a < b := fun hab => heq.not_lt ((frameTime_lt_iff hsr hhop).mpr hab)
  obtain rfl : frame = onset :=
    le_antisymm (not_lt.mp (hlt honset.time_eq.symm)) (not_lt.mp (hlt honset.time_eq))
  have hframe : frame < S.cols := by simpa [length_superflux] using honset.lt_length
  refine ⟨hframe, ?_⟩
  rw [← getD_superflux hframe]
  exact honset.floor

/-- The notes of a stem stand one by one for frames in which its spectrum rises. -/
theorem buildMelodyNotes_standFor (hdoc : lib.Documented) (hpeaks : lib.DocumentedPeaks)
    (hspectra : lib.DocumentedSpectra) (hsr : 0 < sr)
    (h : buildMelodyNotes lib y sr bpm laneCount = .ok notes) :
    notes = [] ∨ ∃ signal, normalizeLevel y = .ok (some signal) ∧
      ∃ frames : List ℕ, frames.Pairwise (· < ·) ∧
        List.Forall₂ (StandsFor lib (lib.stftMagnitude signal nFft hopLength) sr) notes
          frames := by
  rcases buildMelodyNotes_eq_ok h with rfl | ⟨signal, hlevel, h⟩
  · exact Or.inl rfl
  refine Or.inr ⟨signal, hlevel, ?_⟩
  dsimp only at h
  set S := lib.stftMagnitude signal nFft hopLength
  have hS : S.Nonneg := hspectra.magnitude signal nFft hopLength
  obtain ⟨frames, hframes, hsorted, -⟩ :=
    pickOnsets_eq hdoc (superflux lib S sr hopLength) sr hopLength
  have hfields := of_mem_melodyNotesFrom (o := listening lib S sr) h rfl rfl
  rw [hframes, List.map_map] at hfields
  refine ⟨frames, hsorted, List.forall₂_iff_zip.mpr ⟨?_, fun {n frame} hmem => ?_⟩⟩
  · simpa using congrArg List.length hfields
  have hfield : (n.time, n.energy) = (roundHalfEven (frameTime sr hopLength frame * 1000 : K),
      (listening lib S sr).strengthAt (frameTime sr hopLength frame)) := by
    have hforall := List.forall₂_eq_eq_eq.symm ▸ hfields
    rw [List.forall₂_map_left_iff, List.forall₂_map_right_iff] at hforall
    exact List.forall₂_zip hforall hmem
  obtain ⟨htime, henergy⟩ := Prod.mk.inj hfield
  have hmem : frameTime sr hopLength frame ∈
      pickOnsets lib (superflux lib S sr hopLength) sr hopLength := by
    rw [hframes]
    exact List.mem_map_of_mem (List.of_mem_zip hmem).2
  obtain ⟨hframe, hloud⟩ := novelty_of_onset hdoc hpeaks hsr hmem
  have hpos : 0 < novelty lib S sr hopLength frame := by linarith
  have hlag := lag_le_of_novelty hpos.ne'
  refine ⟨htime, hlag, hframe, rise_of_novelty hspectra hS hlag hframe hpos.ne',
    bin_of_novelty hspectra hS hlag hframe hpos.ne', hloud, fun loudest hloudest hmax => ?_⟩
  rw [henergy]
  exact strengthAt_superflux hsr hframe hloudest hmax hpos rfl rfl

namespace Sample

def strokes : Grid ℚ := ⟨5, 8, fun bin frame => if bin = 2 ∧ (frame = 2 ∨ frame = 5) then 36 else 0⟩

/-- How many frames the picker skips. -/
def skipped (args : OnsetDetectArgs ℚ) : ℕ :=
  args.wait.getD ⌊(3 / 100 * args.sr / args.hopLength : ℚ)⌋₊

def struck : Librosa ℚ :=
  { tuned with
    load := fun _ _ => ([1], 440)
    beatTrack := fun _ _ => .array [120]
    onsetStrength := fun _ _ _ => [0, 0, 4, 0, 0, 4, 0, 0]
    stftMagnitude := fun _ _ _ => strokes
    onsetDetect := fun args => greedy (fun a b => b ≤ a + skipped args) (picking.onsetDetect args) }

theorem struck_documented : struck.Documented where
  onsets_sorted args := (picking_documented.onsets_sorted args).sublist (greedy_sublist _ _)
  onsets_lt args frame hframe :=
    picking_documented.onsets_lt args frame ((greedy_sublist _ _).subset hframe)
  framesToTime_eq _ _ _ := rfl
  mel_cols _ _ _ _ := rfl
  powerToDb_cols _ := rfl
  centroid_length _ _ _ := rfl

theorem struck_documentedPeaks : struck.DocumentedPeaks where
  le_entry args hbacktrack hnormalize delta hdelta frame hframe :=
    picking_documentedPeaks.le_entry args hbacktrack hnormalize delta hdelta frame
      ((greedy_sublist _ _).subset hframe)

theorem struck_waits (args : OnsetDetectArgs ℚ) :
    (struck.onsetDetect args).Pairwise fun a b => a + skipped args < b :=
  (greedy_pairwise _ _).imp not_le.mp

theorem struck_documentedSpacing : struck.DocumentedSpacing where
  rate_pos _ := show 0 < 440 by decide
  waits args _ wait hwait := by
    have hskipped : skipped args = wait := by rw [skipped, hwait, Option.getD_some]
    exact hskipped ▸ struck_waits args
  waits_default args _ hwait := by
    have hskipped : skipped args = ⌊(3 / 100 * args.sr / args.hopLength : ℚ)⌋₊ := by
      rw [skipped, hwait, Option.getD_none]
    exact hskipped ▸ struck_waits args

theorem struck_documentedSpectra : struck.DocumentedSpectra where
  magnitude _ _ _ bin _ frame _ := by
    show 0 ≤ strokes.entry bin frame
    unfold strokes
    dsimp only
    split <;> norm_num
  log10 := tuned_log10_strictMono

end Sample

open Sample in
theorem buildMelodyNotes_standFor_sample : ∃ (notes : List (Note ℚ)) (signal : List ℚ)
    (frames : List ℕ), buildMelodyNotes struck [1] 440 120 2 = .ok notes ∧ notes.length = 2 ∧
      normalizeLevel [1] = .ok (some signal) ∧
      List.Forall₂ (StandsFor struck (struck.stftMagnitude signal nFft hopLength) 440) notes
        frames := by
  have hlength : (buildMelodyNotes struck [1] 440 120 2).toOption.map List.length = some 2 := by
    decide +kernel
  obtain ⟨notes, hnotes, hlength⟩ := Option.map_eq_some_iff.mp hlength
  have hbuild := except_toOption_eq_some.mp hnotes
  rcases buildMelodyNotes_standFor struck_documented struck_documentedPeaks
    struck_documentedSpectra (by decide) hbuild with rfl | ⟨signal, hsignal, frames, -, hframes⟩
  · simp at hlength
  · exact ⟨notes, signal, frames, hbuild, hlength, hsignal, hframes⟩

end Maps
