import BeatmapBackend.Maps.Bands
import BeatmapBackend.Maps.NotesBounds
import Mathlib.Data.Rat.Floor

/-! Where the notes of a stem end: at the first real decay of the bands they are followed on,
and within their caps. No index of the estimate is out of range. -/
namespace Maps
open Numerics

variable {K : Type} [Field K] [LinearOrder K]

def bandsLevel (melDb : Grid K) (bands : List ℕ) (frame : ℕ) : K :=
  mean (bands.map fun band => melDb.entry band frame)

/-- The level at a frame is more than fifteen decibels below that of the onset frame. -/
def Decays (melDb : Grid K) (bands : List ℕ) (start frame : ℕ) : Prop :=
  bandsLevel melDb bands frame < bandsLevel melDb bands start - offsetDecayDb

def profile (melDb : Grid K) (bands : List ℕ) (start stop : ℕ) : List K :=
  (List.range (stop - start)).map fun k => bandsLevel melDb bands (start + k)

omit [LinearOrder K] in
theorem mem_profile {melDb : Grid K} {bands : List ℕ} {start stop : ℕ} {level : K} :
    level ∈ profile melDb bands start stop ↔
      ∃ frame, start ≤ frame ∧ frame < stop ∧ bandsLevel melDb bands frame = level := by
  simp only [profile, List.mem_map, List.mem_range]
  constructor
  · rintro ⟨k, hk, rfl⟩
    exact ⟨start + k, by omega, by omega, rfl⟩
  · rintro ⟨frame, hge, hlt, rfl⟩
    exact ⟨frame - start, by omega, by rw [Nat.add_sub_cancel' hge]⟩

section Estimate

variable [IsStrictOrderedRing K] {lib : Librosa K} {melDb : Grid K} {times : List K}
  {tOn hardCap : K}

theorem not_decays_start (bands : List ℕ) (start : ℕ) : ¬ Decays melDb bands start start := by
  have hpos : (0 : K) < offsetDecayDb := by
    unfold offsetDecayDb
    positivity
  unfold Decays
  linarith

/-- The bands that are followed exist. -/
theorem selectBands_lt (hlib : lib.DocumentedBands) (hrows : 0 < melDb.rows) (start : ℕ) :
    ∃ bands, selectBands lib melDb start = .ok bands ∧ ∀ band ∈ bands, band < melDb.rows := by
  refine ⟨_, selectBands_eq lib hrows start, fun band hband => ?_⟩
  simpa using (hlib.argsort _).lt_of_mem_last hband

omit [IsStrictOrderedRing K] in
/-- Once its bands exist, the estimate of one note is a search through their profile. -/
theorem estimateOffset_eq {start stop : ℕ} {bands : List ℕ}
    (hstart : start = min (searchsortedLeft times tOn) (times.length - 1))
    (hstop : stop = min (max (min (searchsortedLeft times hardCap) (times.length - 1))
      (start + 1)) melDb.cols) (hbands : selectBands lib melDb start = .ok bands)
    (hin : ∀ band ∈ bands, band < melDb.rows) (hlt : start < stop) :
    estimateOffset lib melDb times tOn hardCap =
      match (profile melDb bands start stop).findIdx? fun level =>
        decide (level < bandsLevel melDb bands start - offsetDecayDb) with
      | none => .ok hardCap
      | some decayed => match times[start + decayed]? with
        | none => .error (indexError "index is out of bounds for axis 0")
        | some time => .ok (min (max time (tOn + offsetMinDurS)) hardCap) := by
  have hout : ¬ ∃ band ∈ bands, melDb.rows ≤ band := by
    push Not
    exact hin
  obtain ⟨rest, hprofile⟩ : ∃ rest, profile melDb bands start stop =
      bandsLevel melDb bands start :: rest := by
    obtain ⟨n, hn⟩ := Nat.exists_eq_add_of_lt hlt
    have hcount : stop - start = n + 1 := by omega
    simp [profile, hcount, List.range_succ_eq_map]
  have hlist : ((List.range (stop - start)).map fun k =>
      mean (bands.map fun band => melDb.entry band (start + k))) =
      bandsLevel melDb bands start :: rest := hprofile
  unfold estimateOffset
  simp only [← hstart, ← hstop, hbands, bind, Except.bind, if_neg hout, pure, Except.pure,
    hlist, hprofile, min_self]
  generalize (bandsLevel melDb bands start :: rest).findIdx? _ = found
  cases found with
  | none => rfl
  | some decayed => cases times[start + decayed]? <;> rfl

/-- The estimate of one note looks at the frames from its onset frame up to its cap frame, at
one frame at least, and either none of them decays or it takes the first that does. -/
theorem estimateOffset_cases (times : List K) (tOn hardCap : K) (hlib : lib.DocumentedBands)
    (hrows : 0 < melDb.rows)
    (hcols : 0 < melDb.cols) (hlen : times.length = melDb.cols) {start stop : ℕ}
    (hstart : start = min (searchsortedLeft times tOn) (times.length - 1))
    (hstop : stop = min (max (min (searchsortedLeft times hardCap) (times.length - 1))
      (start + 1)) melDb.cols) :
    ∃ bands off, selectBands lib melDb start = .ok bands ∧
      estimateOffset lib melDb times tOn hardCap = .ok off ∧
      (((∀ frame, start ≤ frame → frame < stop → ¬ Decays melDb bands start frame) ∧
          off = hardCap) ∨
        ∃ frame time, start ≤ frame ∧ frame < stop ∧ Decays melDb bands start frame ∧
          (∀ earlier, start ≤ earlier → earlier < frame →
            ¬ Decays melDb bands start earlier) ∧
          times[frame]? = some time ∧ off = min (max time (tOn + offsetMinDurS)) hardCap) := by
  obtain ⟨bands, hbands, hin⟩ := selectBands_lt hlib hrows start
  have heq := estimateOffset_eq hstart hstop hbands hin (by omega)
  cases hfind : (profile melDb bands start stop).findIdx? fun level =>
      decide (level < bandsLevel melDb bands start - offsetDecayDb) with
  | none =>
    simp only [hfind] at heq
    refine ⟨bands, hardCap, hbands, heq, Or.inl ⟨fun frame hge hlt => ?_, rfl⟩⟩
    have hnone := List.findIdx?_eq_none_iff.mp hfind (bandsLevel melDb bands frame)
      (mem_profile.mpr ⟨frame, hge, hlt, rfl⟩)
    simpa [Decays] using hnone
  | some decayed =>
    obtain ⟨hdecayed, hdecay, hfirst⟩ := List.findIdx?_eq_some_iff_getElem.mp hfind
    have hframe : start + decayed < stop := by
      simp only [profile, List.length_map, List.length_range] at hdecayed
      omega
    have htime := List.getElem?_eq_getElem (show start + decayed < times.length by omega)
    simp only [hfind, htime] at heq
    refine ⟨bands, _, hbands, heq, Or.inr ⟨start + decayed, _, by omega, hframe, ?_, ?_, htime,
      rfl⟩⟩
    · simpa [Decays, profile] using hdecay
    · intro earlier hge hlt
      have hnot := hfirst (earlier - start) (by omega)
      simpa [Decays, profile, Nat.add_sub_cancel' hge] using hnot

end Estimate

section Frames

variable [FloorRing K] [IsStrictOrderedRing K] {lib : Librosa K} {melDb : Grid K} {sr hop : ℕ}

theorem frameTime_lt_iff (hsr : 0 < sr) (hhop : 0 < hop) {a b : ℕ} :
    (frameTime sr hop a : K) < frameTime sr hop b ↔ a < b := by
  have hsr' : (0 : K) < sr := by exact_mod_cast hsr
  have hhop' : (0 : K) < hop := by exact_mod_cast hhop
  unfold frameTime
  rw [div_lt_div_iff_of_pos_right hsr', mul_lt_mul_iff_left₀ hhop', Nat.cast_lt]

theorem sortedLE_frameTimes (sr hop n : ℕ) :
    ((List.range n).map (frameTime (K := K) sr hop)).SortedLE :=
  (frameTime_pairwise sr hop List.pairwise_lt_range).sortedLE

/-- The frames before a time that is not after the last frame. -/
theorem lt_searchsorted_frameTimes_iff (hsr : 0 < sr) (hhop : 0 < hop) {n : ℕ} {x : K}
    (hx : x ≤ frameTime sr hop (n - 1)) (frame : ℕ) :
    frame < min (searchsortedLeft ((List.range n).map (frameTime sr hop)) x)
      (((List.range n).map (frameTime (K := K) sr hop)).length - 1) ↔
      frameTime sr hop frame < x := by
  have hiff (hframe : frame < n) : frame <
      searchsortedLeft ((List.range n).map (frameTime sr hop)) x ↔ frameTime sr hop frame < x := by
    rw [lt_searchsortedLeft_iff (sortedLE_frameTimes sr hop n) (by simpa using hframe)]
    simp
  rw [lt_min_iff, List.length_map, List.length_range]
  constructor
  · rintro ⟨hsearch, hlt⟩
    exact (hiff (by omega)).mp hsearch
  · intro hlt
    have hlast : frame < n - 1 := (frameTime_lt_iff hsr hhop).mp (hlt.trans_le hx)
    exact ⟨(hiff (by omega)).mpr hlt, hlast⟩

/-- The note that starts at a frame ends within its cap and after its shortest duration, if
the cap allows it: at the first frame before the cap that decays, or else at the cap. -/
structure EndsAtDecay (melDb : Grid K) (bands : List ℕ) (sr hop start : ℕ) (cap off : K) :
    Prop where
  lower : min (frameTime sr hop start + offsetMinDurS) cap ≤ off
  upper : off ≤ cap
  after : frameTime sr hop start ≤ off
  held : (∀ frame, start ≤ frame → frameTime sr hop frame < cap →
    ¬ Decays melDb bands start frame) → off = cap
  decayed : ∀ frame, start ≤ frame → frameTime sr hop frame < cap →
    Decays melDb bands start frame →
    (∀ earlier, start ≤ earlier → earlier < frame → ¬ Decays melDb bands start earlier) →
    off = min cap (max (frameTime sr hop frame) (frameTime sr hop start + offsetMinDurS))

theorem estimateOffset_spec (hlib : lib.DocumentedBands) (hrows : 0 < melDb.rows)
    (hsr : 0 < sr) (hhop : 0 < hop) {start : ℕ} (hstart : start < melDb.cols) {cap : K}
    (hcap : frameTime sr hop start ≤ cap) (hlast : cap ≤ frameTime sr hop (melDb.cols - 1)) :
    ∃ bands off, selectBands lib melDb start = .ok bands ∧
      estimateOffset lib melDb ((List.range melDb.cols).map (frameTime sr hop))
        (frameTime sr hop start) cap = .ok off ∧
      EndsAtDecay melDb bands sr hop start cap off := by
  set times : List K := (List.range melDb.cols).map (frameTime sr hop) with htimes
  have hlen : times.length = melDb.cols := by simp [htimes]
  have hfound : start = min (searchsortedLeft times (frameTime sr hop start))
      (times.length - 1) := by
    apply eq_of_forall_lt_iff
    intro frame
    rw [lt_searchsorted_frameTimes_iff hsr hhop (hcap.trans hlast), frameTime_lt_iff hsr hhop]
  obtain ⟨bands, off, hbands, hoff, hcases⟩ := estimateOffset_cases times
    (frameTime sr hop start) cap hlib hrows (by omega) hlen hfound rfl
  have hbefore (frame : ℕ) (hge : start ≤ frame) (hdecays : Decays melDb bands start frame) :
      frame < min (max (min (searchsortedLeft times cap) (times.length - 1)) (start + 1))
        melDb.cols ↔ frameTime sr hop frame < cap := by
    rw [← lt_searchsorted_frameTimes_iff hsr hhop hlast, ← htimes]
    have hne : frame ≠ start := fun he => not_decays_start bands start (he ▸ hdecays)
    omega
  have hmin : (frameTime sr hop start : K) ≤ frameTime sr hop start + offsetMinDurS := by
    unfold offsetMinDurS
    linarith
  refine ⟨bands, off, hbands, hoff, ?_⟩
  rcases hcases with ⟨hnone, rfl⟩ | ⟨found, time, hge, hlt, hdecays, hfirst, htime, rfl⟩
  · constructor
    case lower => exact min_le_right _ _
    case upper => exact le_rfl
    case after => exact hcap
    case held => exact fun _ => rfl
    case decayed =>
      intro frame hge hframe hdecays _
      exact (hnone frame hge ((hbefore frame hge hdecays).mpr hframe) hdecays).elim
  · have hfoundTime : time = frameTime sr hop found := by
      rw [htimes, List.getElem?_map, List.getElem?_range (by omega)] at htime
      simpa using htime.symm
    subst hfoundTime
    constructor
    case lower => exact min_le_min_right _ (le_max_right _ _)
    case upper => exact min_le_right _ _
    case after => exact le_min (hmin.trans (le_max_right _ _)) hcap
    case held =>
      intro hnone
      exact (hnone found hge ((hbefore found hge hdecays).mp hlt) hdecays).elim
    case decayed =>
      intro frame hge' hframe hdecays' hfirst'
      have hsame : frame = found := by
        rcases Nat.lt_trichotomy frame found with hlt' | he | hgt
        · exact (hfirst frame hge' hlt' hdecays').elim
        · exact he
        · exact (hfirst' found hge hgt hdecays).elim
      rw [hsame, min_comm]

def melLevels (lib : Librosa K) (S : Grid K) (sr : ℕ) : Grid K :=
  lib.powerToDb (lib.melspectrogram (S.map fun x => x ^ 2) sr offsetNMels offsetFmax)

omit [LinearOrder K] [FloorRing K] [IsStrictOrderedRing K] in
theorem melLevels_cols (hdoc : lib.Documented) (S : Grid K) (sr : ℕ) :
    (melLevels lib S sr).cols = S.cols := by
  rw [melLevels, hdoc.powerToDb_cols, hdoc.mel_cols, Grid.map]

omit [FloorRing K] [IsStrictOrderedRing K] in
theorem melLevels_rows (hlib : lib.DocumentedBands) (S : Grid K) (sr : ℕ) :
    0 < (melLevels lib S sr).rows := by
  rw [melLevels, hlib.powerToDb_rows, hlib.mel_rows]
  decide

def noteOffset (lib : Librosa K) (S : Grid K) (sr hop : ℕ) (onsetTimes : List K)
    (note : K × ℕ) : Except Exc K :=
  let last := frameTime sr hop (S.cols - 1)
  estimateOffset lib (melLevels lib S sr) ((List.range S.cols).map (frameTime sr hop)) note.1
    (min (min (note.1 + offsetMaxDurS) (onsetTimes.getD (note.2 + 1) last)) last)

omit [FloorRing K] [IsStrictOrderedRing K] in
theorem estimateOffsets_eq (hdoc : lib.Documented) {S : Grid K} (hcols : 0 < S.cols)
    (onsetTimes : List K) : estimateOffsets lib S sr onsetTimes hop =
      onsetTimes.zipIdx.mapM (noteOffset lib S sr hop onsetTimes) := by
  have htimes : ((List.range (melLevels lib S sr).cols).map fun frame =>
      lib.framesToTime frame sr hop) = (List.range S.cols).map (frameTime sr hop) := by
    rw [melLevels_cols hdoc]
    exact List.map_congr_left fun frame _ => hdoc.framesToTime_eq frame sr hop
  have hlast : ((List.range S.cols).map (frameTime (K := K) sr hop)).getLast? =
      some (frameTime sr hop (S.cols - 1)) := by
    rw [List.getLast?_map, List.getLast?_range, if_neg hcols.ne', Option.map_some]
  unfold estimateOffsets
  simp only [← melLevels.eq_def, htimes, hlast]
  rfl

omit [FloorRing K] in
/-- No index of the estimate is out of range, wherever the onsets are. -/
theorem estimateOffsets_isOk (sr hop : ℕ) (hdoc : lib.Documented) (hlib : lib.DocumentedBands)
    {S : Grid K} (hcols : 0 < S.cols) (onsetTimes : List K) : ∃ offsets,
      estimateOffsets lib S sr onsetTimes hop = .ok offsets ∧
        offsets.length = onsetTimes.length := by
  obtain ⟨offsets, hok⟩ := except_mapM_isOk (f := noteOffset lib S sr hop onsetTimes)
    (l := onsetTimes.zipIdx) (by
      intro note _
      obtain ⟨_, off, -, hoff, -⟩ := estimateOffset_cases
        ((List.range S.cols).map (frameTime sr hop)) note.1 (min (min (note.1 + offsetMaxDurS)
          (onsetTimes.getD (note.2 + 1) (frameTime sr hop (S.cols - 1))))
          (frameTime sr hop (S.cols - 1))) hlib (melLevels_rows hlib S sr)
        (by rwa [melLevels_cols hdoc]) (by simp [melLevels_cols hdoc]) rfl rfl
      exact ⟨off, hoff⟩)
  have hlen := (List.forall₂_iff_get.mp (except_mapM_eq_ok.mp hok)).1
  rw [List.length_zipIdx] at hlen
  exact ⟨offsets, by rwa [estimateOffsets_eq hdoc hcols], hlen.symm⟩

/-- The cap of the `i`th note: four seconds after its onset, the next onset or the last frame,
whichever comes first. -/
def noteCap (sr hop last : ℕ) (frames : List ℕ) (i : ℕ) : K :=
  min (min (frameTime sr hop (frames.getD i 0) + offsetMaxDurS)
    (frameTime sr hop (frames.getD (i + 1) last))) (frameTime sr hop last)

section Stem

variable {S : Grid K} {frames : List ℕ}

theorem noteOffset_spec (hdoc : lib.Documented) (hlib : lib.DocumentedBands) (hsr : 0 < sr)
    (hhop : 0 < hop) (hsorted : frames.Pairwise (· < ·)) (hlt : ∀ frame ∈ frames, frame < S.cols)
    {i : ℕ} (hi : i < frames.length) : ∃ off : K,
      noteOffset lib S sr hop (frames.map (frameTime sr hop)) (frameTime sr hop frames[i], i) =
        .ok off ∧
      ∃ bands, selectBands lib (melLevels lib S sr) frames[i] = .ok bands ∧
        EndsAtDecay (melLevels lib S sr) bands sr hop frames[i]
          (noteCap sr hop (S.cols - 1) frames i) off := by
  have hframe := hlt _ (List.getElem_mem hi)
  obtain ⟨hon, -⟩ := hardCap_bounds (K := K) sr hop hsorted
    (fun frame hf => Nat.le_pred_of_lt (hlt frame hf)) hi rfl
  obtain ⟨bands, off, hbands, hoff, hends⟩ := estimateOffset_spec hlib (melLevels_rows hlib S sr)
    hsr hhop (by rwa [melLevels_cols hdoc]) hon
    (by rw [melLevels_cols hdoc]; exact min_le_right _ _)
  rw [melLevels_cols hdoc] at hoff
  rw [List.getD_map, ← List.getD_eq_getElem _ 0 hi, ← noteCap] at hends
  rw [List.getD_eq_getElem _ _ hi] at hends
  exact ⟨off, hoff, bands, hbands, hends⟩

/-- Every note of a stem ends at its first decay and within its caps, and no index of the
estimate is out of range. -/
theorem estimateOffsets_spec (hdoc : lib.Documented) (hlib : lib.DocumentedBands)
    (hcols : 0 < S.cols) (hsr : 0 < sr) (hhop : 0 < hop) (hsorted : frames.Pairwise (· < ·))
    (hlt : ∀ frame ∈ frames, frame < S.cols) : ∃ offsets : List K,
      estimateOffsets lib S sr (frames.map (frameTime sr hop)) hop = .ok offsets ∧
      offsets.length = frames.length ∧
      ∀ (i : ℕ) (hi : i < frames.length), ∃ bands off, offsets[i]? = some off ∧
        selectBands lib (melLevels lib S sr) frames[i] = .ok bands ∧
        EndsAtDecay (melLevels lib S sr) bands sr hop frames[i]
          (noteCap sr hop (S.cols - 1) frames i) off := by
  rw [estimateOffsets_eq hdoc hcols]
  obtain ⟨offsets, hoffsets, hlen, hget⟩ := except_mapM_zipIdx_isOk
    (f := noteOffset lib S sr hop (frames.map (frameTime sr hop)))
    (l := frames.map (frameTime sr hop))
    (P := fun i off => ∀ hi : i < frames.length, ∃ bands,
      selectBands lib (melLevels lib S sr) frames[i] = .ok bands ∧
        EndsAtDecay (melLevels lib S sr) bands sr hop frames[i]
          (noteCap sr hop (S.cols - 1) frames i) off) (fun i hi => by
      rw [List.length_map] at hi
      obtain ⟨off, hoff, hends⟩ := noteOffset_spec hdoc hlib hsr hhop hsorted hlt hi
      exact ⟨off, by rwa [List.getElem_map], fun _ => hends⟩)
  rw [List.length_map] at hlen hget
  refine ⟨offsets, hoffsets, hlen, fun i hi => ?_⟩
  obtain ⟨off, hoff, hends⟩ := hget i hi
  obtain ⟨bands, hbands, hends⟩ := hends hi
  exact ⟨bands, off, hoff, hbands, hends⟩

end Stem

end Frames

namespace Sample

def gap : Grid ℚ := ⟨1, 8, fun _ frame => if frame = 5 then 0 else 10⟩

end Sample

open Sample in
theorem estimateOffsets_spec_sample : ∃ offsets : List ℚ,
    estimateOffsets (hearing [3, 6] fun _ => 1) gap 22050 ([3, 6].map (frameTime 22050 512)) 512 =
      .ok offsets ∧
    offsets.length = 2 ∧
    ∀ (i : ℕ) (hi : i < [3, 6].length), ∃ bands off, offsets[i]? = some off ∧
      selectBands (hearing [3, 6] fun _ => 1) (melLevels (hearing [3, 6] fun _ => 1) gap 22050)
        [3, 6][i] = .ok bands ∧
      EndsAtDecay (melLevels (hearing [3, 6] fun _ => 1) gap 22050) bands 22050 512 [3, 6][i]
        (noteCap 22050 512 7 [3, 6] i) off :=
  estimateOffsets_spec (hearing_documented (by decide) _) (hearing_documentedBands _ _)
    (by decide) (by decide) (by decide) (by decide) (by decide)

open Sample in
/-- The silence ends the first note before the second onset, but not before fifty
milliseconds. -/
example : estimateOffsets (hearing [3, 6] fun _ => 1) gap 22050 ([3, 6].map (frameTime 22050 512))
    512 = .ok [frameTime 22050 512 3 + offsetMinDurS, frameTime 22050 512 7] := by
  decide +kernel

end Maps
