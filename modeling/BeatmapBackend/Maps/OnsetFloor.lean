import BeatmapBackend.Maps.NotesBounds
import BeatmapBackend.Numerics.Windows
import Mathlib.Data.Rat.Floor

/-! The threshold an onset has to exceed never falls below a fixed level, and is that level where
the novelty is mostly silent. -/
namespace Maps
open Numerics

variable {K : Type} [Field K] [LinearOrder K]

/-- A peak picked from an envelope as it is exceeds, by `delta`, the mean of the envelope over some
frames around it. -/
structure Librosa.DocumentedPeaks (lib : Librosa K) : Prop where
  le_entry : ∀ args : OnsetDetectArgs K, args.backtrack = false → args.normalize = false →
    ∀ delta, args.delta = some delta → ∀ frame ∈ lib.onsetDetect args, ∃ start stop,
      start ≤ frame ∧ frame < stop ∧
        mean ((args.envelope.take stop).drop start) + delta ≤ args.envelope.getD frame 0

variable [FloorRing K]

def onsetWindow (K : Type) [Field K] [LinearOrder K] [FloorRing K] (sr hop : ℕ) : ℕ :=
  max 3 (roundHalfEven (onsetBaselineWindowS * sr / hop : K)).toNat

/-- An onset of the novelty starts with a frame above the fixed level and its own threshold. -/
structure IsOnset (novelty : List K) (sr hop : ℕ) (time : K) (frame : ℕ) : Prop where
  time_eq : time = frameTime sr hop frame
  lt_length : frame < novelty.length
  floor : 3 < novelty.getD frame 0
  threshold : (onsetThreshold novelty sr hop).getD frame 0 < novelty.getD frame 0

variable {lib : Librosa K} {novelty : List K} {sr hop frame : ℕ}

@[simp] theorem length_onsetThreshold :
    (onsetThreshold novelty sr hop).length = novelty.length := by
  simp [onsetThreshold]

/-- Whatever the two medians are. -/
theorem le_onsetThreshold (hframe : frame < novelty.length) :
    3 ≤ (onsetThreshold novelty sr hop).getD frame 0 := by
  rw [List.getD_eq_getElem _ _ (by simpa using hframe)]
  simp only [onsetThreshold, List.getElem_zipWith]
  exact le_max_right _ _

theorem getD_onsetResidual (hframe : frame < novelty.length) :
    (onsetResidual novelty sr hop).getD frame 0 =
      max (novelty.getD frame 0 - (onsetThreshold novelty sr hop).getD frame 0) 0 := by
  rw [onsetResidual, List.getD_eq_getElem _ _ (by simpa using hframe), List.getElem_zipWith,
    List.getD_eq_getElem _ _ hframe, List.getD_eq_getElem _ _ (by simpa using hframe)]

theorem onsetResidual_nonneg {x : K} (hx : x ∈ onsetResidual novelty sr hop) : 0 ≤ x := by
  obtain ⟨i, hi, rfl⟩ := List.mem_iff_getElem.mp hx
  simp only [onsetResidual, List.getElem_zipWith]
  exact le_max_right _ _

variable [IsStrictOrderedRing K]

/-- A picked frame has a positive residual. -/
theorem pickOnsets_isOnset (hlib : lib.Documented) (hpeaks : lib.DocumentedPeaks) {time : K}
    (htime : time ∈ pickOnsets lib novelty sr hop) :
    ∃ frame, IsOnset novelty sr hop time frame := by
  obtain ⟨frame, hframe, rfl⟩ := List.mem_map.mp htime
  have hlt := hlib.onsets_lt _ frame hframe
  obtain ⟨start, stop, -, -, hpeak⟩ := hpeaks.le_entry _ rfl rfl _ rfl frame hframe
  dsimp only at hlt hpeak
  rw [length_onsetResidual] at hlt
  have hmean : 0 ≤ mean (((onsetResidual novelty sr hop).take stop).drop start) := by
    apply mean_nonneg
    intro x hx
    exact onsetResidual_nonneg (List.mem_of_mem_take (List.mem_of_mem_drop hx))
  have hdelta : (0 : K) < 1 / 1000000 := by norm_num
  have hresidual : 0 < (onsetResidual novelty sr hop).getD frame 0 := by linarith
  rw [getD_onsetResidual hlt] at hresidual
  have habove : (onsetThreshold novelty sr hop).getD frame 0 < novelty.getD frame 0 :=
    sub_pos.mp ((lt_max_iff.mp hresidual).resolve_right (lt_irrefl 0))
  exact ⟨frame, hlib.framesToTime_eq frame sr hop, hlt, (le_onsetThreshold hlt).trans_lt habove,
    habove⟩

omit [Field K] [LinearOrder K] [FloorRing K] [IsStrictOrderedRing K] in
private theorem zipWith_replicate_length {L : Type} (f : K → L → K) (xs : List K) (y : L) :
    List.zipWith f xs (List.replicate xs.length y) = xs.map (f · y) := by
  induction xs with
  | nil => rfl
  | cons x xs ih => simp [List.replicate_succ, ih]

/-- Both medians of a sparse novelty are zero. -/
theorem onsetThreshold_eq_floor (hnonneg : ∀ x ∈ novelty, 0 ≤ x)
    (hsparse : Sparse novelty (onsetWindow K sr hop)) :
    onsetThreshold novelty sr hop = List.replicate novelty.length 3 := by
  have hbaseline := medianFilter_eq_zeros hnonneg hsparse
  have hdeviation : novelty.map (fun x => |x - 0|) = novelty := by
    apply (List.map_congr_left fun x hx => ?_).trans (List.map_id novelty)
    rw [sub_zero, abs_of_nonneg (hnonneg x hx), id]
  have hlevel : max ((0 : K) + onsetZThresh * (0 / (6745 / 10000) + 1 / 1000000))
      onsetMinNovelty = 3 := by
    unfold onsetZThresh onsetMinNovelty
    norm_num
  simp only [onsetThreshold]
  rw [← onsetWindow, hbaseline, zipWith_replicate_length, hdeviation, hbaseline,
    List.zipWith_replicate, min_self, hlevel]

theorem onsetResidual_eq_floor (hnonneg : ∀ x ∈ novelty, 0 ≤ x)
    (hsparse : Sparse novelty (onsetWindow K sr hop)) :
    onsetResidual novelty sr hop = novelty.map fun x => max (x - 3) 0 := by
  rw [onsetResidual, onsetThreshold_eq_floor hnonneg hsparse, zipWith_replicate_length]

/-- The fixed level is a floor under every threshold and every onset, and sparse attacks are held
against it alone. -/
theorem onsetThreshold_floor (hlib : lib.Documented) (hpeaks : lib.DocumentedPeaks)
    (novelty : List K) (sr hop : ℕ) :
    (∀ frame < novelty.length, 3 ≤ (onsetThreshold novelty sr hop).getD frame 0) ∧
    (∀ time ∈ pickOnsets lib novelty sr hop, ∃ frame, IsOnset novelty sr hop time frame) ∧
    ((∀ x ∈ novelty, 0 ≤ x) → Sparse novelty (onsetWindow K sr hop) →
      onsetThreshold novelty sr hop = List.replicate novelty.length 3 ∧
        onsetResidual novelty sr hop = novelty.map fun x => max (x - 3) 0) :=
  ⟨fun _ => le_onsetThreshold, fun _ => pickOnsets_isOnset hlib hpeaks,
    fun hnonneg hsparse => ⟨onsetThreshold_eq_floor hnonneg hsparse,
      onsetResidual_eq_floor hnonneg hsparse⟩⟩

namespace Sample

/-- Picks the frames that exceed the mean of the whole envelope. -/
def picking : Librosa ℚ :=
  { hearing [] fun _ => 0 with
    onsetDetect := fun args => (List.range args.envelope.length).filter fun frame =>
      decide (mean args.envelope + args.delta.getD 0 ≤ args.envelope.getD frame 0) }

theorem picking_documented : picking.Documented :=
  { hearing_documented List.Pairwise.nil fun _ => 0 with
    onsets_sorted := fun _ => List.pairwise_lt_range.sublist List.filter_sublist
    onsets_lt := fun _ _ hframe => List.mem_range.mp (List.mem_filter.mp hframe).1 }

theorem picking_documentedPeaks : picking.DocumentedPeaks where
  le_entry := by
    intro args _ _ delta hdelta frame hframe
    obtain ⟨hrange, hmean⟩ := List.mem_filter.mp hframe
    refine ⟨0, args.envelope.length, Nat.zero_le _, List.mem_range.mp hrange, ?_⟩
    rw [hdelta] at hmean
    simpa using hmean

def attack : List ℚ := [0, 0, 0, 5, 0, 0, 0, 0]

end Sample

open Sample in
theorem onsetThreshold_floor_sample :
    (∀ time ∈ pickOnsets picking attack 22050 512, ∃ frame, IsOnset attack 22050 512 time frame) ∧
    onsetResidual attack 22050 512 = [0, 0, 0, 2, 0, 0, 0, 0] := by
  have h := onsetThreshold_floor picking_documented picking_documentedPeaks attack 22050 512
  have hsparse := h.2.2 (by decide) (by decide +kernel)
  refine ⟨h.2.1, hsparse.2.trans (by decide +kernel)⟩

end Maps
