import BeatmapBackend.Maps.NotesBounds
import Mathlib.Data.Rat.Floor

/-! Holds of melody notes: in seconds a note ends by the next onset, and in the whole
milliseconds of the beatmap it may end one later. -/
namespace Maps
open Numerics

variable {K : Type} [Field K] [LinearOrder K] [FloorRing K]

/-- A note ends no more than `gap` milliseconds after the next one starts. -/
def OverlapAtMost (gap : ℤ) (notes : List (Note K)) : Prop :=
  ∀ (i : ℕ) (n m : Note K), notes[i]? = some n → notes[i + 1]? = some m →
    ∃ d, n.duration = some d ∧ n.time + d ≤ m.time + gap

section Seconds

variable {lib : Librosa K} {S : Grid K} {sr hop : ℕ} {onsetTimes offsets : List K}

omit [FloorRing K] in
/-- In seconds, a note ends by the next onset. -/
theorem estimateOffsets_le_next (h : estimateOffsets lib S sr onsetTimes hop = .ok offsets)
    {i : ℕ} (hi : i < offsets.length) (hnext : i + 1 < onsetTimes.length) :
    offsets[i] ≤ onsetTimes[i + 1] := by
  obtain ⟨hlen, hget⟩ := List.forall₂_iff_get.mp (except_mapM_eq_ok.mp h)
  rw [List.length_zipIdx] at hlen
  have hstep := hget i (by simpa using hlen ▸ hi) hi
  simp only [List.get_eq_getElem, List.getElem_zipIdx, Nat.zero_add] at hstep
  split at hstep
  · cases hstep
  · apply (estimateOffset_le hstep).trans
    rw [List.getD_eq_getElem _ _ hnext]
    exact (min_le_left _ _).trans (min_le_right _ _)

end Seconds

section Milliseconds

variable [IsStrictOrderedRing K] {lib : Librosa K} {signal : List K} {S : Grid K}
  {flux onsetTimes : List K} {sr hop : ℕ} {bpm laneCount : ℤ} {notes : List (Note K)}

omit [IsStrictOrderedRing K] in
theorem buildMelodyNote_times {onset offset energy : K} {lane : ℕ} {n : Note K}
    (h : buildMelodyNote onset offset lane energy bpm = .ok n) :
    n.time = roundHalfEven (onset * 1000) ∧
      n.duration = some (roundHalfEven ((offset - onset) * 1000)) := by
  obtain ⟨combo, -, h⟩ := except_bind_eq_ok.mp h
  obtain rfl := Except.ok.inj h
  exact ⟨rfl, rfl⟩

theorem melodyNotesFrom_overlapAtMost
    (h : melodyNotesFrom lib signal S flux onsetTimes sr hop bpm laneCount = .ok notes) :
    OverlapAtMost 1 notes := by
  obtain ⟨offsets, lanes, hoffsets, -, -, -, -, h⟩ := melodyNotesFrom_eq_ok.mp h
  obtain ⟨hlen, hget⟩ := List.forall₂_iff_get.mp (except_mapM_eq_ok.mp h)
  intro i n m hn hm
  obtain ⟨hi, rfl⟩ := List.getElem?_eq_some_iff.mp hn
  obtain ⟨hi', rfl⟩ := List.getElem?_eq_some_iff.mp hm
  have hthis := hget i (hlen ▸ hi) hi
  have hnext := hget (i + 1) (hlen ▸ hi') hi'
  simp only [List.get_eq_getElem, List.getElem_zip] at hthis hnext
  obtain ⟨htime, hduration⟩ := buildMelodyNote_times hthis
  obtain ⟨htime', -⟩ := buildMelodyNote_times hnext
  simp only [List.length_zip] at hlen
  have hle := estimateOffsets_le_next hoffsets (i := i) (by omega) (by omega)
  refine ⟨_, hduration, ?_⟩
  rw [htime, htime']
  apply roundHalfEven_add_le
  linarith

/-- However the onsets are spaced, no note ends more than one millisecond after the next one
starts. -/
theorem melodyNotes_overlapAtMost (lib : Librosa K) (sr : ℕ) (bpm laneCount : ℤ) :
    (∀ (signal : List K) (S : Grid K) (flux onsetTimes : List K) (hop : ℕ) (notes : List (Note K)),
      melodyNotesFrom lib signal S flux onsetTimes sr hop bpm laneCount = .ok notes →
        OverlapAtMost 1 notes) ∧
    ∀ (y : List K) (notes : List (Note K)), buildMelodyNotes lib y sr bpm laneCount = .ok notes →
      OverlapAtMost 1 notes := by
  constructor
  · intro signal S flux onsetTimes hop notes h
    exact melodyNotesFrom_overlapAtMost h
  · intro y notes h
    rcases buildMelodyNotes_eq_ok h with rfl | ⟨signal, -, h⟩
    · intro i n m hn
      cases hn
    · exact melodyNotesFrom_overlapAtMost h

end Milliseconds

namespace Sample

/-- Two notes of seventy milliseconds each, seventy milliseconds from the start and apart, when
each of these is rounded. -/
def touching : List (Note ℚ) :=
  [⟨70, 1, 0, .melody, some 70, 1⟩, ⟨139, 1, 0, .melody, some 23, 1⟩]

theorem buildMelodyNotes_touching :
    buildMelodyNotes (hearing [3, 6] fun _ => 1) [1] 22050 120 2 = .ok touching := by
  decide +kernel

end Sample

open Sample in
theorem melodyNotes_overlapAtMost_sample : OverlapAtMost 1 touching :=
  (melodyNotes_overlapAtMost (hearing [3, 6] fun _ => 1) 22050 120 2).2 [1] touching
    buildMelodyNotes_touching

open Sample in
/-- The three roundings can let a note end after the next one starts. -/
theorem not_overlapAtMost_zero :
    (hearing [3, 6] fun _ => 1).Documented ∧ (hearing [3, 6] fun _ => 1).DocumentedBands ∧
      melodyNotesFrom (hearing [3, 6] fun _ => 1) [1] ⟨1, 8, fun _ _ => 1⟩ (List.replicate 8 0)
        ([3, 6].map (frameTime 22050 512)) 22050 512 120 2 = .ok touching ∧
      buildMelodyNotes (hearing [3, 6] fun _ => 1) [1] 22050 120 2 = .ok touching ∧
      ¬ OverlapAtMost 0 touching := by
  refine ⟨hearing_documented (by decide) _, hearing_documentedBands _ _, by decide +kernel,
    buildMelodyNotes_touching, ?_⟩
  intro h
  obtain ⟨d, hd, hle⟩ := h 0 _ _ rfl rfl
  obtain rfl := Option.some.inj hd
  revert hle
  decide

end Maps
