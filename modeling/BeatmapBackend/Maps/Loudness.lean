import BeatmapBackend.Maps.Extraction
import BeatmapBackend.Numerics.OrderStatistics
import Mathlib.Data.Rat.Floor
import Mathlib.Tactic.NormNum

/-! The level of a stem, to which it is scaled before notes are extracted: it follows the gain
of the track, and a few altered samples move it by as many ranks at most. -/
namespace Maps
open Numerics

variable {K : Type} [Field K] [LinearOrder K]

def magnitudes (y : List K) : List K := y.map fun x => |x|

@[simp] theorem length_magnitudes (y : List K) : (magnitudes y).length = y.length := by
  simp [magnitudes]

theorem magnitudes_agree {y y' : List K} {s : Finset ℕ} (hagree : ∀ i ∉ s, y'[i]? = y[i]?) :
    ∀ i ∉ s, (magnitudes y')[i]? = (magnitudes y)[i]? := by
  intro i hi
  rw [magnitudes, magnitudes, List.getElem?_map, List.getElem?_map, hagree i hi]

def amplify (g : K) (y : List K) : List K := y.map fun x => g * x

omit [LinearOrder K] in
theorem amplify_ne_nil (g : K) {y : List K} (hy : y ≠ []) : amplify g y ≠ [] := by
  simpa [amplify] using hy

theorem magnitudes_amplify [IsStrictOrderedRing K] {g : K} (hg : 0 < g) (y : List K) :
    magnitudes (amplify g y) = (magnitudes y).map fun x => g * x := by
  simp [magnitudes, amplify, abs_mul, abs_of_pos hg]

variable [FloorRing K]

/-- `np.quantile(np.abs(y), 0.999)`: what the samples are divided by. -/
def referenceLevel (y : List K) : K := quantile (magnitudes y) onsetNormalizeQuantile

theorem normalizeLevel_eq {y : List K} (hy : y ≠ []) : normalizeLevel y =
    if referenceLevel y < onsetSilenceLevel then .ok none
    else .ok (some (y.map fun x => x / referenceLevel y)) := by
  rw [normalizeLevel, if_neg hy]
  rfl

variable [IsStrictOrderedRing K] {y : List K} {g h : K}

theorem referenceLevel_amplify (hg : 0 < g) (y : List K) :
    referenceLevel (amplify g y) = g * referenceLevel y := by
  rw [referenceLevel, magnitudes_amplify hg, quantile_map_mul hg.le, referenceLevel]

/-- The gain cancels, whatever it is. -/
theorem normalizeLevel_amplify (hy : y ≠ []) (hg : 0 < g) : normalizeLevel (amplify g y) =
    if g * referenceLevel y < onsetSilenceLevel then .ok none
    else .ok (some (y.map fun x => x / referenceLevel y)) := by
  have hcancel (x : K) : g * x / (g * referenceLevel y) = x / referenceLevel y :=
    mul_div_mul_left x _ hg.ne'
  rw [normalizeLevel_eq (amplify_ne_nil g hy), referenceLevel_amplify hg]
  simp only [amplify, List.map_map, Function.comp_def, hcancel]

/-- A track that is loud enough at two gains gives the same notes, and one that is silent at a
gain gives none. -/
theorem buildMelodyNotes_amplify (lib : Librosa K) (sr : ℕ) (bpm laneCount : ℤ) (hy : y ≠ [])
    (hg : 0 < g) (hh : 0 < h) (hbpm : 1 ≤ bpm) (hlanes : 1 ≤ laneCount) :
    (onsetSilenceLevel ≤ referenceLevel (amplify g y) →
      onsetSilenceLevel ≤ referenceLevel (amplify h y) →
      buildMelodyNotes lib (amplify g y) sr bpm laneCount =
        buildMelodyNotes lib (amplify h y) sr bpm laneCount ∧
      (lib.Documented → lib.DocumentedBands →
        ∃ notes, buildMelodyNotes lib (amplify g y) sr bpm laneCount = .ok notes)) ∧
    (g * referenceLevel y < onsetSilenceLevel →
      buildMelodyNotes lib (amplify g y) sr bpm laneCount = .ok []) := by
  constructor
  · intro hloud hloud'
    constructor
    · rw [referenceLevel_amplify hg] at hloud
      rw [referenceLevel_amplify hh] at hloud'
      have hsame : normalizeLevel (amplify g y) = normalizeLevel (amplify h y) := by
        rw [normalizeLevel_amplify hy hg, normalizeLevel_amplify hy hh, if_neg hloud.not_gt,
          if_neg hloud'.not_gt]
      unfold buildMelodyNotes
      rw [hsame]
    · intro hdoc hlib
      exact buildMelodyNotes_isOk hdoc hlib (amplify_ne_nil g hy) (by omega) hlanes
  · intro hsilent
    unfold buildMelodyNotes
    rw [normalizeLevel_amplify hy hg, if_pos hsilent]
    rfl

open Sample in
theorem buildMelodyNotes_amplify_sample :
    (buildMelodyNotes (hearing [3, 6] fun _ => 1) (amplify 2 [1, -1 / 2]) 22050 120 2 =
        buildMelodyNotes (hearing [3, 6] fun _ => 1) (amplify (1 / 3) [1, -1 / 2]) 22050 120 2 ∧
      ∃ notes, buildMelodyNotes (hearing [3, 6] fun _ => 1) (amplify 2 [1, -1 / 2]) 22050 120 2 =
        .ok notes) ∧
    buildMelodyNotes (hearing [3, 6] fun _ => 1) (amplify (1 / 100000) [1, -1 / 2]) 22050 120 2 =
      .ok [] := by
  have hy : ([1, -1 / 2] : List ℚ) ≠ [] := List.cons_ne_nil _ _
  obtain ⟨hloud, -⟩ := buildMelodyNotes_amplify (g := 2) (h := 1 / 3)
    (hearing [3, 6] fun _ => 1) 22050 120 2 hy (by decide +kernel) (by decide +kernel)
    (by decide) (by decide)
  obtain ⟨hsame, hok⟩ := hloud (by decide +kernel) (by decide +kernel)
  obtain ⟨-, hsilent⟩ := buildMelodyNotes_amplify (g := 1 / 100000) (h := 1)
    (hearing [3, 6] fun _ => 1) 22050 120 2 hy (by decide +kernel) (by decide +kernel)
    (by decide) (by decide)
  exact ⟨⟨hsame, hok (hearing_documented (by decide) _) (hearing_documentedBands _ _)⟩,
    hsilent (by decide +kernel)⟩

section Clicks

variable {y' : List K} {s : Finset ℕ} {m : ℕ}

theorem onsetNormalizeQuantile_mem :
    (0 : K) ≤ onsetNormalizeQuantile ∧ (onsetNormalizeQuantile : K) ≤ 1 := by
  unfold onsetNormalizeQuantile
  constructor <;> norm_num

/-- There is room for the clicks above the reference. -/
theorem ceil_add_lt (hy : y ≠ []) (hm : m ≤ (y.length - 1) / 1000) :
    ⌈(onsetNormalizeQuantile : K) * (y.length - 1 : ℕ)⌉₊ + m < y.length := by
  have hroom : 1000 * m ≤ y.length - 1 := by omega
  have hcast : (1000 * m : K) ≤ (y.length - 1 : ℕ) := by exact_mod_cast hroom
  have hle : (onsetNormalizeQuantile : K) * (y.length - 1 : ℕ) ≤ (y.length - 1 - m : ℕ) := by
    have hsub : ((y.length - 1 - m : ℕ) : K) = (y.length - 1 : ℕ) - m := Nat.cast_sub (by omega)
    rw [hsub]
    unfold onsetNormalizeQuantile
    linarith
  have hceil := Nat.ceil_le.mpr hle
  have hpos := List.length_pos_iff.mpr hy
  omega

theorem referenceLevel_bounds (hy : y ≠ []) :
    smallest (magnitudes y) ⌊(onsetNormalizeQuantile : K) * (y.length - 1 : ℕ)⌋₊ ≤
        referenceLevel y ∧
      referenceLevel y ≤
        smallest (magnitudes y) ⌈(onsetNormalizeQuantile : K) * (y.length - 1 : ℕ)⌉₊ := by
  have hne : magnitudes y ≠ [] := by simpa [magnitudes] using hy
  obtain ⟨h0, h1⟩ := onsetNormalizeQuantile_mem (K := K)
  have hlow := smallest_floor_le_quantile hne h0 h1
  have hhigh := quantile_le_smallest_ceil hne h0 h1
  simp only [position, length_magnitudes] at hlow hhigh
  exact ⟨hlow, hhigh⟩

/-- Altering at most `m` samples, one in a thousand, leaves the reference below some sample
that was not altered, and within `m` ranks of where it was. -/
theorem referenceLevel_altered (hy : y ≠ []) (hlen : y'.length = y.length)
    (hagree : ∀ i ∉ s, y'[i]? = y[i]?) (hs : s.card ≤ m) (hm : m ≤ (y.length - 1) / 1000) :
    (normalizeLevel y' = if referenceLevel y' < onsetSilenceLevel then .ok none
      else .ok (some (y'.map fun x => x / referenceLevel y'))) ∧
    (∃ i ∉ s, ∃ x, y[i]? = some x ∧ referenceLevel y' ≤ |x|) ∧
    (m ≤ ⌊(onsetNormalizeQuantile : K) * (y.length - 1 : ℕ)⌋₊ →
      smallest (magnitudes y) (⌊(onsetNormalizeQuantile : K) * (y.length - 1 : ℕ)⌋₊ - m) ≤
        referenceLevel y') ∧
    ⌈(onsetNormalizeQuantile : K) * (y.length - 1 : ℕ)⌉₊ + m < y.length ∧
    referenceLevel y' ≤
      smallest (magnitudes y) (⌈(onsetNormalizeQuantile : K) * (y.length - 1 : ℕ)⌉₊ + m) := by
  have hroom := ceil_add_lt hy hm
  have hy' : y' ≠ [] := by
    rw [← List.length_pos_iff, hlen]
    exact List.length_pos_iff.mpr hy
  have hmag := magnitudes_agree hagree
  have hlen' : (magnitudes y').length = (magnitudes y).length := by simpa using hlen
  obtain ⟨hlow, hhigh⟩ := referenceLevel_bounds hy'
  rw [hlen] at hlow hhigh
  set p : K := onsetNormalizeQuantile * (y.length - 1 : ℕ)
  have hfloor := Nat.floor_le_ceil p
  refine ⟨normalizeLevel_eq hy', ?_, ?_, hroom, ?_⟩
  · obtain ⟨i, hi, v, hv, hge⟩ := exists_unaltered_ge (magnitudes y') (s := s) (k := ⌈p⌉₊)
      (by simp only [length_magnitudes]; omega)
    rw [hmag i hi, magnitudes, List.getElem?_map] at hv
    obtain ⟨x, hx, rfl⟩ := Option.map_eq_some_iff.mp hv
    exact ⟨i, hi, x, hx, hhigh.trans hge⟩
  · intro hle
    have hmove := smallest_le_smallest_add hlen' hmag (k := ⌊p⌋₊ - m)
      (by simp only [length_magnitudes]; omega)
    exact (hmove.trans (smallest_mono (by omega) (by simp only [length_magnitudes]; omega))).trans
      hlow
  · have hmove := smallest_le_smallest_add hlen'.symm (fun i hi => (hmag i hi).symm) (k := ⌈p⌉₊)
      (by simp only [length_magnitudes]; omega)
    exact (hhigh.trans hmove).trans (smallest_mono (by omega) (by simpa using hroom))

end Clicks

namespace Sample

def steady : List ℚ := List.replicate 1001 (1 / 2)
def clicked : List ℚ := steady.set 7 100

theorem length_steady : steady.length = 1001 := List.length_replicate

end Sample

open Sample in
theorem referenceLevel_altered_sample : ∃ i ∉ ({7} : Finset ℕ), ∃ x : ℚ,
    steady[i]? = some x ∧ referenceLevel clicked ≤ |x| := by
  have hy : steady ≠ [] := List.ne_nil_of_length_eq_add_one length_steady
  have hagree : ∀ i ∉ ({7} : Finset ℕ), clicked[i]? = steady[i]? := by
    intro i hi
    exact List.getElem?_set_ne fun he => hi (Finset.mem_singleton.mpr he.symm)
  exact (referenceLevel_altered hy List.length_set hagree (Finset.card_singleton 7).le
    (by rw [length_steady])).2.1

end Maps
