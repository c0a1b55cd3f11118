import BeatmapBackend.Maps.NotesService
import Mathlib.Data.List.GetD
import Mathlib.Tactic.NormNum

/-! The range of every field of a note that `notes_service` builds, when the audio library
behaves as documented. -/
namespace Maps
open Numerics

variable {K : Type} [Field K] [LinearOrder K] [FloorRing K]

/-- What a player relies on for one note of a beatmap with `laneCount` lanes. -/
structure Note.Sound (laneCount : ℤ) (n : Note K) : Prop where
  lane : 0 ≤ n.lane ∧ n.lane < laneCount
  energy : 0 ≤ n.energy ∧ n.energy ≤ 1
  time : 0 ≤ n.time
  combo : 1 ≤ n.combo

section Lengths

variable (lib : Librosa K) (S : Grid K) (sr hop : ℕ) (novelty : List K)

theorem length_superflux : (superflux lib S sr hop).length = S.cols := by
  unfold superflux
  dsimp only
  split
  · simp
  · split
    · simp
    next hmu =>
      simp only [Grid.map, Grid.transposeMul, not_le] at hmu
      simp only [Grid.map, Grid.transposeMul, List.length_append, List.length_replicate,
        List.length_map, List.length_range]
      omega

theorem length_onsetResidual : (onsetResidual novelty sr hop).length = novelty.length := by
  simp [onsetResidual, onsetThreshold]

theorem length_onsetStrengths (onsetTimes : List K) :
    (onsetStrengths novelty sr onsetTimes hop).length = onsetTimes.length := by
  unfold onsetStrengths
  split
  · simp
  · dsimp only
    split <;> simp

end Lengths

section Times

variable [IsStrictOrderedRing K] {lib : Librosa K}

def frameTime (sr hop frame : ℕ) : K := frame * hop / sr

theorem frameTime_nonneg (sr hop frame : ℕ) : (0 : K) ≤ frameTime sr hop frame := by
  unfold frameTime
  positivity

theorem frameTime_mono (sr hop : ℕ) {a b : ℕ} (h : a ≤ b) :
    (frameTime sr hop a : K) ≤ frameTime sr hop b := by
  unfold frameTime
  gcongr

theorem frameTime_pairwise (sr hop : ℕ) {frames : List ℕ} (h : frames.Pairwise (· < ·)) :
    (frames.map (frameTime (K := K) sr hop)).Pairwise (· ≤ ·) :=
  List.Pairwise.map _ (fun _ _ hlt => frameTime_mono sr hop (le_of_lt hlt)) h

omit [IsStrictOrderedRing K] in
/-- Onsets lie on frames of the spectrogram, in order. -/
theorem pickOnsets_eq (hlib : lib.Documented) (novelty : List K) (sr hop : ℕ) :
    ∃ frames : List ℕ, pickOnsets lib novelty sr hop = frames.map (frameTime sr hop) ∧
      frames.Pairwise (· < ·) ∧ ∀ frame ∈ frames, frame < novelty.length := by
  refine ⟨_, List.map_congr_left fun frame _ => hlib.framesToTime_eq frame sr hop,
    hlib.onsets_sorted _, fun frame hf => ?_⟩
  simpa [length_onsetResidual] using hlib.onsets_lt _ frame hf

omit [FloorRing K] [IsStrictOrderedRing K] in
/-- A note ends at its cap, or a least duration after it starts if the cap allows it. -/
theorem estimateOffset_eq_ok {melDb : Grid K} {times : List K} {tOn hardCap off : K}
    (h : estimateOffset lib melDb times tOn hardCap = .ok off) :
    off = hardCap ∨ ∃ time, off = min (max time (tOn + offsetMinDurS)) hardCap := by
  unfold estimateOffset at h
  obtain ⟨bands, -, h⟩ := except_bind_eq_ok.mp h
  split at h
  · cases h
  · dsimp only at h
    split at h
    · cases h
    next first rest hprofile =>
      split at h
      · obtain rfl := Except.ok.inj h
        exact Or.inl (min_self _)
      · split at h
        · cases h
        next decayTime _ => exact Or.inr ⟨decayTime, (Except.ok.inj h).symm⟩

omit [FloorRing K] [IsStrictOrderedRing K] in
theorem estimateOffset_le {melDb : Grid K} {times : List K} {tOn hardCap off : K}
    (h : estimateOffset lib melDb times tOn hardCap = .ok off) : off ≤ hardCap := by
  rcases estimateOffset_eq_ok h with rfl | ⟨time, rfl⟩
  · exact le_rfl
  · exact min_le_right _ _

omit [FloorRing K] in
/-- A note ends after it starts and no later than its cap. -/
theorem estimateOffset_bounds {melDb : Grid K} {times : List K} {tOn hardCap off : K}
    (h : estimateOffset lib melDb times tOn hardCap = .ok off) (hcap : tOn ≤ hardCap) :
    tOn ≤ off ∧ off ≤ hardCap := by
  refine ⟨?_, estimateOffset_le h⟩
  rcases estimateOffset_eq_ok h with rfl | ⟨time, rfl⟩
  · exact hcap
  · have hmin : (0 : K) ≤ offsetMinDurS := by
      unfold offsetMinDurS
      positivity
    have hend : tOn ≤ max time (tOn + offsetMinDurS) :=
      (le_add_of_nonneg_right hmin).trans (le_max_right _ _)
    exact le_min hend hcap

/-- The cap of the `i`th note: none of the three times it is taken from is before its onset. -/
theorem hardCap_bounds (sr hop : ℕ) {n : ℕ} {frames : List ℕ} (hsorted : frames.Pairwise (· < ·))
    (hle : ∀ frame ∈ frames, frame ≤ n) {i : ℕ} (hi : i < frames.length) {cap : K}
    (hcap : cap = min (min (frameTime sr hop frames[i] + offsetMaxDurS)
      ((frames.map (frameTime sr hop)).getD (i + 1) (frameTime sr hop n))) (frameTime sr hop n)) :
    frameTime sr hop frames[i] ≤ cap ∧ cap ≤ frameTime sr hop frames[i] + offsetMaxDurS := by
  have hlast : (frameTime sr hop frames[i] : K) ≤ frameTime sr hop n :=
    frameTime_mono sr hop (hle _ (List.getElem_mem hi))
  have hnext : (frameTime sr hop frames[i] : K) ≤
      (frames.map (frameTime sr hop)).getD (i + 1) (frameTime sr hop n) := by
    rcases Nat.lt_or_ge (i + 1) frames.length with hlt | hge
    · rw [List.getD_eq_getElem _ _ (by simpa using hlt), List.getElem_map]
      exact frameTime_mono sr hop
        (le_of_lt (List.pairwise_iff_getElem.mp hsorted i (i + 1) hi hlt (Nat.lt_succ_self i)))
    · rwa [List.getD_eq_default _ _ (by simpa using hge)]
  have hmax : (0 : K) ≤ offsetMaxDurS := by
    unfold offsetMaxDurS
    positivity
  subst hcap
  exact ⟨le_min (le_min (le_add_of_nonneg_right hmax) hnext) hlast,
    (min_le_left _ _).trans (min_le_left _ _)⟩

/-- Every note lasts between nothing and four seconds: its cap is the next onset, the end of
the stem, or four seconds later, and none of them is before its start. -/
theorem estimateOffsets_bounds (hlib : lib.Documented) {S : Grid K} {sr hop : ℕ}
    {frames : List ℕ} (hsorted : frames.Pairwise (· < ·)) (hlt : ∀ frame ∈ frames, frame < S.cols)
    {offsets : List K}
    (h : estimateOffsets lib S sr (frames.map (frameTime sr hop)) hop = .ok offsets) :
    List.Forall₂ (fun tOn off => tOn ≤ off ∧ off ≤ tOn + offsetMaxDurS)
      (frames.map (frameTime sr hop)) offsets := by
  have hcols : (lib.powerToDb (lib.melspectrogram (S.map fun x => x ^ 2) sr offsetNMels
      offsetFmax)).cols = S.cols := by
    rw [hlib.powerToDb_cols, hlib.mel_cols, Grid.map]
  obtain ⟨hlen, hget⟩ := List.forall₂_iff_get.mp (except_mapM_eq_ok.mp h)
  rw [List.length_zipIdx] at hlen
  refine List.forall₂_iff_get.mpr ⟨hlen, fun i hi hi' => ?_⟩
  have hif : i < frames.length := by simpa using hi
  have hstep := hget i (by simpa using hi) hi'
  obtain ⟨n, hn⟩ := Nat.exists_eq_succ_of_ne_zero
    (Nat.ne_zero_of_lt (hlt _ (List.getElem_mem hif)))
  rw [hcols, hn] at hstep
  simp only [List.get_eq_getElem, List.getElem_zipIdx, List.getElem_map, Nat.zero_add,
    hlib.framesToTime_eq, List.getLast?_map, List.getLast?_range, Nat.succ_ne_zero, ↓reduceIte,
    Option.map_some, Nat.succ_sub_one] at hstep
  obtain ⟨hon, hmax⟩ := hardCap_bounds (K := K) sr hop hsorted
    (fun frame hf => Nat.lt_succ_iff.mp (hn ▸ hlt frame hf)) hif rfl
  obtain ⟨hle, hcap⟩ := estimateOffset_bounds hstep hon
  rw [List.get_eq_getElem, List.getElem_map]
  exact ⟨hle, hcap.trans hmax⟩

end Times

section Fields

variable [IsStrictOrderedRing K]

omit [IsStrictOrderedRing K] in
theorem centroidLanes_lt {centroids : List K} {laneCount : ℤ} {lanes : List ℕ}
    (hlanes : 1 ≤ laneCount) (h : centroidLanes centroids laneCount = .ok lanes) :
    ∀ lane ∈ lanes, (lane : ℤ) < laneCount := by
  unfold centroidLanes at h
  split at h
  · cases h
  · split at h
    · cases h
    · obtain rfl := Except.ok.inj h
      intro lane hlane
      obtain ⟨c, -, rfl⟩ := List.mem_map.mp hlane
      refine lt_of_le_of_lt (Int.ofNat_le.mpr (digitize_le_length c _)) ?_
      simp only [List.length_dropLast, List.length_drop, List.length_map, length_linspace]
      omega

omit [IsStrictOrderedRing K] in
theorem spectralCentroidLanes_lt {lib : Librosa K} {y : List K} {sr hop : ℕ}
    {onsetTimes offsets : List K} {laneCount : ℤ} {lanes : List ℕ} (hlanes : 1 ≤ laneCount)
    (h : spectralCentroidLanes lib y sr onsetTimes offsets laneCount hop = .ok lanes) :
    ∀ lane ∈ lanes, (lane : ℤ) < laneCount := by
  unfold spectralCentroidLanes at h
  dsimp only at h
  split at h
  · cases h
  · obtain ⟨centroids, -, h⟩ := except_bind_eq_ok.mp h
    exact centroidLanes_lt hlanes h

omit [IsStrictOrderedRing K] in
theorem onsetStrengths_mem (flux : List K) (sr : ℕ) (onsetTimes : List K) (hop : ℕ) :
    ∀ e ∈ onsetStrengths flux sr onsetTimes hop, 0 ≤ e ∧ e ≤ 1 := by
  intro e he
  unfold onsetStrengths at he
  split at he
  · obtain ⟨_, -, rfl⟩ := List.mem_map.mp he
    exact ⟨le_rfl, zero_le_one⟩
  · dsimp only at he
    split at he
    · obtain ⟨_, -, rfl⟩ := List.mem_map.mp he
      exact ⟨le_rfl, zero_le_one⟩
    · obtain ⟨_, -, rfl⟩ := List.mem_map.mp he
      exact ⟨le_clip zero_le_one, clip_le _ _ _⟩

/-- Seconds rounded to milliseconds. -/
theorem millis_nonneg {t : K} (h : 0 ≤ t) : 0 ≤ roundHalfEven (t * 1000) :=
  roundHalfEven_nonneg (mul_nonneg h (by norm_num))

theorem millis_mono {t u : K} (h : t ≤ u) :
    roundHalfEven (t * 1000) ≤ roundHalfEven (u * 1000) :=
  roundHalfEven_mono (mul_le_mul_of_nonneg_right h (by norm_num))

omit [IsStrictOrderedRing K] in
/-- Only the combo of a note depends on the division by the tempo. -/
theorem buildMelodyNote_cases {onset offset energy : K} {lane : ℕ} {bpm : ℤ} {n : Note K}
    (h : buildMelodyNote onset offset lane energy bpm = .ok n) : ∃ beats, n = {
      time := roundHalfEven (onset * 1000)
      duration := some (roundHalfEven ((offset - onset) * 1000))
      lane := lane
      energy := energy
      noteType := .melody
      combo := max 1 beats } := by
  obtain ⟨combo, hcombo, h⟩ := except_bind_eq_ok.mp h
  obtain ⟨beats, -, hcombo⟩ := except_bind_eq_ok.mp hcombo
  obtain rfl := Except.ok.inj hcombo
  exact ⟨beats, (Except.ok.inj h).symm⟩

theorem buildMelodyNote_sound {onset offset energy : K} {lane : ℕ} {bpm laneCount : ℤ}
    {n : Note K} (h : buildMelodyNote onset offset lane energy bpm = .ok n)
    (honset : 0 ≤ onset) (hle : onset ≤ offset) (hmax : offset ≤ onset + offsetMaxDurS)
    (hlane : (lane : ℤ) < laneCount) (henergy : 0 ≤ energy ∧ energy ≤ 1) :
    n.Sound laneCount ∧ n.time = roundHalfEven (onset * 1000) ∧ n.noteType = .melody ∧
      ∃ d, n.duration = some d ∧ 0 ≤ d ∧ d ≤ 4000 := by
  obtain ⟨beats, rfl⟩ := buildMelodyNote_cases h
  refine ⟨⟨⟨Int.natCast_nonneg lane, hlane⟩, henergy, millis_nonneg honset, le_max_left 1 beats⟩,
    rfl, rfl, _, rfl, millis_nonneg (sub_nonneg.mpr hle), ?_⟩
  apply roundHalfEven_le_of_le
  have hdur : offset - onset ≤ 4 := by
    unfold offsetMaxDurS at hmax
    linarith
  push_cast
  linarith

theorem buildDrumNote_sound {onseter : KickOnseter K} {laneCount : ℤ} {onset : K} {index : ℕ}
    {n : Note K} (h : buildDrumNote onseter laneCount onset index = .ok n)
    (hlanes : 1 ≤ laneCount) (honset : 0 ≤ onset) :
    n.Sound laneCount ∧ n.time = roundHalfEven (onset * 1000) ∧ n.noteType = .drum ∧
      n.duration = none := by
  obtain ⟨lane, hlane, h⟩ := except_bind_eq_ok.mp h
  obtain rfl := Except.ok.inj h
  have hpos : 0 < laneCount := by omega
  rw [floorMod, if_neg (by omega), Except.ok.injEq] at hlane
  subst hlane
  exact ⟨⟨⟨Int.fmod_nonneg_of_pos _ hpos, Int.fmod_lt_of_pos _ hpos⟩, onseter.strengthAt_mem onset,
    millis_nonneg honset, le_rfl⟩, rfl, rfl, rfl⟩

end Fields

def melodyNotesFrom (lib : Librosa K) (signal : List K) (S : Grid K) (flux onsetTimes : List K)
    (sr hop : ℕ) (bpm laneCount : ℤ) : Except Exc (List (Note K)) := do
  let offsets ← estimateOffsets lib S sr onsetTimes hop
  let lanes ← spectralCentroidLanes lib signal sr onsetTimes offsets laneCount hop
  let energies := onsetStrengths flux sr onsetTimes hop
  if offsets.length ≠ onsetTimes.length ∨ lanes.length ≠ onsetTimes.length ∨
      energies.length ≠ onsetTimes.length then
    throw (valueError "zip() arguments have different lengths")
  (onsetTimes.zip (offsets.zip (lanes.zip energies))).mapM fun note =>
    buildMelodyNote note.1 note.2.1 note.2.2.1 note.2.2.2 bpm

section Stages

variable {lib : Librosa K} {y signal : List K}

/-- Notes are built once every stage has ended well and has one entry for each onset. -/
theorem melodyNotesFrom_eq_ok {S : Grid K} {flux onsetTimes : List K} {sr hop : ℕ}
    {bpm laneCount : ℤ} {notes : List (Note K)} :
    melodyNotesFrom lib signal S flux onsetTimes sr hop bpm laneCount = .ok notes ↔
      ∃ offsets lanes, estimateOffsets lib S sr onsetTimes hop = .ok offsets ∧
        spectralCentroidLanes lib signal sr onsetTimes offsets laneCount hop = .ok lanes ∧
        offsets.length = onsetTimes.length ∧ lanes.length = onsetTimes.length ∧
        (onsetStrengths flux sr onsetTimes hop).length = onsetTimes.length ∧
        (onsetTimes.zip (offsets.zip (lanes.zip (onsetStrengths flux sr onsetTimes hop)))).mapM
          (fun note => buildMelodyNote note.1 note.2.1 note.2.2.1 note.2.2.2 bpm) = .ok notes := by
  unfold melodyNotesFrom
  simp only [except_bind_eq_ok]
  constructor
  · rintro ⟨offsets, hoffsets, lanes, hlanes, h⟩
    split at h
    · cases h
    next hlen =>
      simp only [not_or, not_not] at hlen
      obtain ⟨hlen, hlen', hlen''⟩ := hlen
      exact ⟨offsets, lanes, hoffsets, hlanes, hlen, hlen', hlen'', h⟩
  · rintro ⟨offsets, lanes, hoffsets, hlanes, hlen, hlen', hlen'', h⟩
    refine ⟨offsets, hoffsets, lanes, hlanes, ?_⟩
    rw [if_neg (by simp only [hlen, hlen', hlen'', ne_eq, not_true_eq_false, or_self,
      not_false_eq_true])]
    exact h

theorem buildMelodyNotes_of_silent (h : normalizeLevel y = .ok none) (sr : ℕ)
    (bpm laneCount : ℤ) : buildMelodyNotes lib y sr bpm laneCount = .ok [] := by
  rw [buildMelodyNotes, h]
  rfl

theorem buildMelodyNotes_of_signal (h : normalizeLevel y = .ok (some signal)) (sr : ℕ)
    (bpm laneCount : ℤ) : buildMelodyNotes lib y sr bpm laneCount =
      let S := lib.stftMagnitude signal nFft hopLength
      let flux := superflux lib S sr hopLength
      let onsetTimes := pickOnsets lib flux sr hopLength
      if onsetTimes = [] then .ok []
      else melodyNotesFrom lib signal S flux onsetTimes sr hopLength bpm laneCount := by
  rw [buildMelodyNotes, h]
  rfl

/-- A stem has no notes, or those that are built at its onsets. -/
theorem buildMelodyNotes_eq_ok {sr : ℕ} {bpm laneCount : ℤ} {notes : List (Note K)}
    (h : buildMelodyNotes lib y sr bpm laneCount = .ok notes) :
    notes = [] ∨ ∃ signal, normalizeLevel y = .ok (some signal) ∧
      let S := lib.stftMagnitude signal nFft hopLength
      let flux := superflux lib S sr hopLength
      melodyNotesFrom lib signal S flux (pickOnsets lib flux sr hopLength) sr hopLength bpm
        laneCount = .ok notes := by
  obtain ⟨level, hlevel, -⟩ := except_bind_eq_ok.mp h
  cases level with
  | none =>
    rw [buildMelodyNotes_of_silent hlevel] at h
    exact Or.inl (Except.ok.inj h).symm
  | some signal =>
    rw [buildMelodyNotes_of_signal hlevel] at h
    dsimp only at h
    split at h
    · exact Or.inl (Except.ok.inj h).symm
    · exact Or.inr ⟨signal, hlevel, h⟩

end Stages

theorem mem_zip_of_mem_zip {α β γ : Type} {as : List α} {bs : List β} {cs : List γ} {a : α}
    {b : β} {c : γ} (h : (a, b, c) ∈ as.zip (bs.zip cs)) : (a, b) ∈ as.zip bs := by
  obtain ⟨i, hi, he⟩ := List.mem_iff_getElem.mp h
  simp only [List.getElem_zip, Prod.mk.injEq] at he
  simp only [List.length_zip] at hi
  exact List.mem_iff_getElem.mpr
    ⟨i, by simp only [List.length_zip]; omega, by rw [List.getElem_zip, he.1, he.2.1]⟩

/-- A group of notes of one kind: every note is sound and the times do not go back. -/
structure GroupSound (laneCount : ℤ) (kind : Note K → Prop) (notes : List (Note K)) : Prop where
  sound : ∀ n ∈ notes, n.Sound laneCount ∧ kind n
  times : (notes.map Note.time).Pairwise (· ≤ ·)

def IsDrum (n : Note K) : Prop := n.noteType = .drum ∧ n.duration = none

def IsMelody (n : Note K) : Prop :=
  n.noteType = .melody ∧ ∃ d, n.duration = some d ∧ 0 ≤ d ∧ d ≤ 4000

section Groups

variable {laneCount : ℤ} {kind : Note K → Prop}

omit [FloorRing K] in
theorem groupSound_nil : GroupSound laneCount kind ([] : List (Note K)) where
  sound n hn := by cases hn
  times := List.Pairwise.nil

variable [IsStrictOrderedRing K]

/-- Notes that were built one by one at nondecreasing times. -/
theorem groupSound_of_mapM {α : Type} {f : α → Except Exc (Note K)} (onset : α → K)
    {l : List α} {notes : List (Note K)} (h : l.mapM f = .ok notes)
    (hsound : ∀ a ∈ l, ∀ n, f a = .ok n →
      n.Sound laneCount ∧ n.time = roundHalfEven (onset a * 1000) ∧ kind n)
    (hsorted : (l.map onset).Pairwise (· ≤ ·)) : GroupSound laneCount kind notes where
  sound n hn := by
    obtain ⟨a, ha, hbuild⟩ := except_mapM_source h hn
    obtain ⟨hs, -, hk⟩ := hsound a ha n hbuild
    exact ⟨hs, hk⟩
  times := by
    have hmap := except_mapM_map h (g := Note.time) (k := fun a => roundHalfEven (onset a * 1000))
      fun a ha n hn => (hsound a ha n hn).2.1
    rw [hmap]
    exact List.pairwise_map.mpr ((List.pairwise_map.mp hsorted).imp fun hle => millis_mono hle)

omit [LinearOrder K] [FloorRing K] [IsStrictOrderedRing K] in
theorem detectKickOnsets_eq {lib : Librosa K} (hlib : lib.Documented) (drums : Bytes) :
    ∃ (frames : List ℕ) (sr hop : ℕ),
      (detectKickOnsets lib drums).1 = frames.map (frameTime sr hop) ∧
        frames.Pairwise (· < ·) := by
  refine ⟨_, _, _, List.map_congr_left fun frame _ => hlib.framesToTime_eq frame _ _, ?_⟩
  exact hlib.onsets_sorted _

theorem buildDrumNotes_sound {lib : Librosa K} (hlib : lib.Documented) (hlanes : 1 ≤ laneCount)
    {drums : Bytes} {notes : List (Note K)}
    (h : buildDrumNotes (detectKickOnsets lib drums).1 (detectKickOnsets lib drums).2 laneCount =
      .ok notes) : GroupSound laneCount IsDrum notes := by
  obtain ⟨frames, sr, hop, hframes, hsorted⟩ := detectKickOnsets_eq hlib drums
  apply groupSound_of_mapM Prod.fst h
  · rintro ⟨onset, index⟩ hmem n hn
    have hin := List.fst_mem_of_mem_zipIdx hmem
    rw [hframes] at hin
    obtain ⟨frame, -, rfl⟩ := List.mem_map.mp hin
    exact buildDrumNote_sound hn hlanes (frameTime_nonneg sr hop frame)
  · rw [List.zipIdx_map_fst, hframes]
    exact frameTime_pairwise sr hop hsorted

theorem buildMelodyNotes_sound {lib : Librosa K} (hlib : lib.Documented)
    (hlanes : 1 ≤ laneCount) {y : List K} {sr : ℕ} {bpm : ℤ} {notes : List (Note K)}
    (h : buildMelodyNotes lib y sr bpm laneCount = .ok notes) :
    GroupSound laneCount IsMelody notes := by
  rcases buildMelodyNotes_eq_ok h with rfl | ⟨signal, -, h⟩
  · exact groupSound_nil
  obtain ⟨frames, hframes, hsorted, hlt⟩ := pickOnsets_eq hlib
    (superflux lib (lib.stftMagnitude signal nFft hopLength) sr hopLength) sr hopLength
  rw [length_superflux] at hlt
  dsimp only at h
  rw [hframes] at h
  obtain ⟨offsets, lanes, hoffsets, hlanes', hoffsetsLen, hlanesLen, henergiesLen, h⟩ :=
    melodyNotesFrom_eq_ok.mp h
  have hbounds := estimateOffsets_bounds hlib hsorted hlt hoffsets
  apply groupSound_of_mapM Prod.fst h
  · rintro ⟨onset, offset, lane, energy⟩ hmem n hn
    obtain ⟨honset, hrest⟩ := List.of_mem_zip hmem
    obtain ⟨-, hrest⟩ := List.of_mem_zip hrest
    obtain ⟨hlane, henergy⟩ := List.of_mem_zip hrest
    obtain ⟨hle, hmax⟩ := List.forall₂_zip hbounds (mem_zip_of_mem_zip hmem)
    obtain ⟨frame, -, rfl⟩ := List.mem_map.mp honset
    exact buildMelodyNote_sound hn (frameTime_nonneg sr hopLength frame) hle hmax
      (spectralCentroidLanes_lt hlanes hlanes' lane hlane)
      (onsetStrengths_mem _ _ _ _ energy henergy)
  · rw [List.map_fst_zip (by simp only [List.length_zip]; omega)]
    exact frameTime_pairwise sr hopLength hsorted

end Groups

end Maps
