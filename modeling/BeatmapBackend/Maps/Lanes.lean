import BeatmapBackend.Maps.NotesService
import BeatmapBackend.Numerics.Binning
import Mathlib.Data.Rat.Floor

/-! The lanes of the notes of a stem: in the order of their centroids, and as many notes in one
lane as in another when no two centroids are equal. -/
namespace Maps
open Numerics

variable {K : Type} [Field K] [LinearOrder K] [FloorRing K]

/-- The centroids the lanes are computed from, one for each note. -/
def noteCentroids (lib : Librosa K) (y : List K) (sr : ℕ) (onsetTimes offsets : List K)
    (hop : ℕ) : Except Exc (List K) :=
  let cent := lib.spectralCentroid y sr hop
  let times := (List.range cent.length).map fun frame => lib.framesToTime frame sr hop
  (onsetTimes.zip offsets).mapM fun note => noteCentroid cent times note.1 note.2

section Notes

variable {lib : Librosa K} {y : List K} {sr hop : ℕ} {onsetTimes offsets : List K}

theorem spectralCentroidLanes_eq (hlen : onsetTimes.length = offsets.length) (laneCount : ℤ) :
    spectralCentroidLanes lib y sr onsetTimes offsets laneCount hop =
      noteCentroids lib y sr onsetTimes offsets hop >>= fun centroids =>
        centroidLanes centroids laneCount := by
  unfold spectralCentroidLanes
  simp only [hlen, ne_eq, not_true_eq_false, ↓reduceIte]
  rfl

omit [FloorRing K] in
theorem noteCentroid_isOk {cent : List K} (hcent : cent ≠ []) (times : List K) (tOn tOff : K) :
    ∃ c, noteCentroid cent times tOn tOff = .ok c := by
  have hpos := List.length_pos_iff.mpr hcent
  unfold noteCentroid
  dsimp only
  split
  · exact ⟨_, rfl⟩
  · rw [List.getElem?_eq_getElem (by omega)]
    exact ⟨_, rfl⟩

omit [FloorRing K] in
/-- Every note has a centroid once the stem has a frame. -/
theorem noteCentroids_isOk (sr : ℕ) (hlib : lib.Documented)
    (hcols : 0 < (lib.stftMagnitude y 2048 hop).cols)
    (hlen : onsetTimes.length = offsets.length) : ∃ centroids,
      noteCentroids lib y sr onsetTimes offsets hop = .ok centroids ∧
        centroids.length = onsetTimes.length := by
  have hcent : lib.spectralCentroid y sr hop ≠ [] := by
    rw [← List.length_pos_iff, hlib.centroid_length]
    exact hcols
  obtain ⟨centroids, hok⟩ := except_mapM_isOk (l := onsetTimes.zip offsets)
    (f := fun note => noteCentroid (lib.spectralCentroid y sr hop)
      ((List.range (lib.spectralCentroid y sr hop).length).map fun frame =>
        lib.framesToTime frame sr hop) note.1 note.2)
    fun note _ => noteCentroid_isOk hcent _ note.1 note.2
  have hcount := (List.forall₂_iff_get.mp (except_mapM_eq_ok.mp hok)).1
  rw [List.length_zip, ← hlen, min_self] at hcount
  exact ⟨centroids, hok, hcount.symm⟩

end Notes

section Lanes

variable {centroids : List K} {laneCount : ℤ}

/-- The inner edges are the inner quantiles: lowering the first edge moves none of them. -/
theorem inner_edges_eq (centroids : List K) (n : ℕ) :
    (((linspace 0 1 (n + 1)).map fun q => quantile centroids q).drop 1).dropLast =
      innerQuantiles centroids n := by
  apply List.ext_getElem
  · simp
  · intro i _ _
    simp [innerQuantiles, linspace_eq, div_eq_mul_inv]

theorem centroidLanes_eq (hne : centroids ≠ []) (hlanes : 1 ≤ laneCount) :
    centroidLanes centroids laneCount =
      .ok (centroids.map fun c => digitize c (innerQuantiles centroids laneCount.toNat)) := by
  have hsize : (laneCount + 1).toNat = laneCount.toNat + 1 := by omega
  have hzero : ¬ (laneCount + 1 = 0 ∨ centroids = []) := by
    rintro (hzero | hnil)
    · omega
    · exact hne hnil
  rw [centroidLanes, if_neg (by omega), if_neg hzero, hsize]
  dsimp only
  rw [inner_edges_eq]

/-- The lanes exist, follow the order of the centroids, and share the notes out evenly when no
two centroids are equal. -/
structure LanesBalanced (centroids : List K) (laneCount : ℤ) (lanes : List ℕ) : Prop where
  length : lanes.length = centroids.length
  lt : ∀ lane ∈ lanes, (lane : ℤ) < laneCount
  mono : ∀ note ∈ centroids.zip lanes, ∀ other ∈ centroids.zip lanes,
    note.1 ≤ other.1 → note.2 ≤ other.2
  same : ∀ note ∈ centroids.zip lanes, ∀ other ∈ centroids.zip lanes,
    note.1 = other.1 → note.2 = other.2
  even : centroids.Nodup → ∀ a b : ℕ, (a : ℤ) < laneCount → (b : ℤ) < laneCount →
    lanes.count a ≤ lanes.count b + 1

variable [IsStrictOrderedRing K]

theorem lanesBalanced_digitize (hne : centroids ≠ []) (hlanes : 1 ≤ laneCount) :
    LanesBalanced centroids laneCount
      (centroids.map fun c => digitize c (innerQuantiles centroids laneCount.toNat)) := by
  have hlane : ∀ note ∈ centroids.zip
      (centroids.map fun c => digitize c (innerQuantiles centroids laneCount.toNat)),
      note.2 = digitize note.1 (innerQuantiles centroids laneCount.toNat) := by
    intro note hnote
    obtain ⟨i, hi, rfl⟩ := List.mem_iff_getElem.mp hnote
    rw [List.getElem_zip, List.getElem_map]
  constructor
  case length => exact List.length_map _
  case lt =>
    intro lane hlane
    obtain ⟨c, -, rfl⟩ := List.mem_map.mp hlane
    have hle := digitize_le_length c (innerQuantiles centroids laneCount.toNat)
    rw [length_innerQuantiles] at hle
    omega
  case mono =>
    intro note hnote other hother hle
    rw [hlane note hnote, hlane other hother]
    exact digitize_mono _ hle
  case same =>
    intro note hnote other hother heq
    rw [hlane note hnote, hlane other hother, heq]
  case even =>
    intro hnodup a b ha hb
    exact count_digitize_le_add_one hnodup hne (by omega) (by omega)

/-- The lanes of any notes with these centroids are the same ones, and balanced. -/
theorem spectralCentroidLanes_balanced (hne : centroids ≠ []) (hlanes : 1 ≤ laneCount) :
    ∃ lanes, LanesBalanced centroids laneCount lanes ∧
      centroidLanes centroids laneCount = .ok lanes ∧
      ∀ (lib : Librosa K) (y : List K) (sr : ℕ) (onsetTimes offsets : List K) (hop : ℕ),
        onsetTimes.length = offsets.length →
        noteCentroids lib y sr onsetTimes offsets hop = .ok centroids →
        spectralCentroidLanes lib y sr onsetTimes offsets laneCount hop = .ok lanes := by
  refine ⟨_, lanesBalanced_digitize hne hlanes, centroidLanes_eq hne hlanes, ?_⟩
  intro lib y sr onsetTimes offsets hop hlen hcentroids
  rw [spectralCentroidLanes_eq hlen, hcentroids]
  exact centroidLanes_eq hne hlanes

end Lanes

namespace Sample

def leaping : Librosa ℚ :=
  { hearing [] fun _ => 1 with spectralCentroid := fun _ _ _ => [440, 880, 220] }

end Sample

open Sample in
theorem spectralCentroidLanes_balanced_sample :
    ∃ lanes, LanesBalanced ([440, 880, 220] : List ℚ) 2 lanes ∧
      lanes.count 0 ≤ lanes.count 1 + 1 ∧ lanes.count 1 ≤ lanes.count 0 + 1 ∧
      centroidLanes ([440, 880, 220] : List ℚ) 2 = .ok lanes ∧
      spectralCentroidLanes leaping [1] 22050 [0, 1, 2] [1, 2, 3] 2 22050 = .ok lanes := by
  have hne : ([440, 880, 220] : List ℚ) ≠ [] := List.cons_ne_nil _ _
  have hnodup : ([440, 880, 220] : List ℚ).Nodup := by decide +kernel
  obtain ⟨lanes, hlanes, hcentroids, hall⟩ := spectralCentroidLanes_balanced hne one_le_two
  exact ⟨lanes, hlanes, hlanes.even hnodup 0 1 (by decide) (by decide),
    hlanes.even hnodup 1 0 (by decide) (by decide), hcentroids,
    hall _ _ _ _ _ _ rfl (by decide +kernel)⟩

/-- Five notes in three lanes, two of them on an edge. -/
example : centroidLanes ([100, 500, 300, 200, 400] : List ℚ) 3 = .ok [0, 2, 1, 0, 2] := by
  decide +kernel

end Maps
