import BeatmapBackend.Maps.NotesService
import BeatmapBackend.Numerics.Searching

/-! The bands a note is followed on: which of them are audible at its onset, and when the five
that are kept are the best risers among those. -/
namespace Maps
open Numerics

section Levels

variable {K : Type} [Field K] [LinearOrder K]

/-- The mean level of a band over the window that starts at a frame. -/
def postLevel (melDb : Grid K) (start band : ℕ) : K :=
  mean (melDb.rowSlice band start (min (start + offsetBandWindow) melDb.cols))

/-- How far a band rises over the window before a frame; at the first frame, its level. -/
def rise (melDb : Grid K) (start band : ℕ) : K :=
  if 0 < start then
    postLevel melDb start band - mean (melDb.rowSlice band (start - offsetBandWindow) start)
  else postLevel melDb start band

/-- Within sixty decibels of every band, and so of the loudest. -/
def Audible (melDb : Grid K) (start band : ℕ) : Prop :=
  ∀ other < melDb.rows, postLevel melDb start other - offsetBandFloorDb ≤
    postLevel melDb start band

instance (melDb : Grid K) (start band : ℕ) : Decidable (Audible melDb start band) := by
  unfold Audible
  infer_instance

def audibleCount (melDb : Grid K) (start : ℕ) : ℕ :=
  (List.range melDb.rows).countP fun band => decide (Audible melDb start band)

/-- The bands are audible and distinct, as many as can be had up to five, and none that is
left out rises more. -/
structure FollowsAudible (melDb : Grid K) (start : ℕ) (bands : List ℕ) : Prop where
  audible : ∀ band ∈ bands, band < melDb.rows ∧ Audible melDb start band
  distinct : bands.Nodup
  count : bands.length = min offsetBandCount (audibleCount melDb start)
  best : ∀ out < melDb.rows, Audible melDb start out → out ∉ bands →
    ∀ band ∈ bands, ¬ rise melDb start band < rise melDb start out

def rank (melDb : Grid K) (start band : ℕ) : WithBot K :=
  if Audible melDb start band then ((rise melDb start band : K) : WithBot K) else ⊥

theorem rank_eq_bot_iff {melDb : Grid K} {start band : ℕ} :
    rank melDb start band = ⊥ ↔ ¬ Audible melDb start band := by
  by_cases h : Audible melDb start band <;> simp [rank, h]

theorem audibleCount_eq (melDb : Grid K) (start : ℕ) : audibleCount melDb start =
    ((List.range melDb.rows).map (rank melDb start)).countP fun r => decide (r ≠ ⊥) := by
  rw [audibleCount, List.countP_map]
  apply List.countP_congr
  intro band _
  simp [rank_eq_bot_iff]

omit [LinearOrder K] in
theorem riseList_eq (melDb : Grid K) (start : ℕ) :
    (if start - offsetBandWindow < start then
      List.zipWith (fun a b => a - b) ((List.range melDb.rows).map (postLevel melDb start))
        ((List.range melDb.rows).map fun band =>
          mean (melDb.rowSlice band (start - offsetBandWindow) start))
    else (List.range melDb.rows).map (postLevel melDb start)) =
      (List.range melDb.rows).map (rise melDb start) := by
  by_cases h : 0 < start
  · have hpre : start - offsetBandWindow < start := Nat.sub_lt h (by decide)
    rw [if_pos hpre, List.zipWith_map, List.zipWith_self]
    apply List.map_congr_left
    intro band _
    rw [rise, if_pos h]
  · have hpre : ¬ start - offsetBandWindow < start := by omega
    rw [if_neg hpre]
    apply List.map_congr_left
    intro band _
    rw [rise, if_neg h]

variable [IsStrictOrderedRing K]

theorem selectBands_eq (lib : Librosa K) {melDb : Grid K} (hrows : 0 < melDb.rows) (start : ℕ) :
    selectBands lib melDb start =
      .ok (last (lib.argsort ((List.range melDb.rows).map (rank melDb start)))
        offsetBandCount) := by
  have hlevels : ((List.range melDb.rows).map fun band =>
      mean (melDb.rowSlice band start (min (start + offsetBandWindow) melDb.cols))) =
      (List.range melDb.rows).map (postLevel melDb start) := rfl
  unfold selectBands
  dsimp only
  rw [hlevels, riseList_eq]
  split
  next hnil => simp [hrows.ne'] at hnil
  next x xs hcons =>
    have haudible (band : ℕ) : amax x xs - offsetBandFloorDb ≤ postLevel melDb start band ↔
        Audible melDb start band := by
      rw [sub_le_iff_le_add, amax_le_iff, ← hcons]
      simp [Audible]
    simp only [List.bind_eq_flatMap, List.pure_def, ← List.map_eq_flatMap, List.map_map,
      List.zipWith_map, List.zipWith_self, Function.comp_apply, haudible]
    rfl

omit [IsStrictOrderedRing K] in
theorem rank_le_rank_iff {melDb : Grid K} {start a b : ℕ} (ha : Audible melDb start a)
    (hb : Audible melDb start b) :
    rank melDb start a ≤ rank melDb start b ↔ rise melDb start a ≤ rise melDb start b := by
  rw [rank, rank, if_pos ha, if_pos hb, WithBot.coe_le_coe]

/-- The five last bands are the five best audible ones unless fewer are audible than are
kept: then inaudible ones are kept with them. -/
theorem selectBands_followsAudible_iff {lib : Librosa K} (hlib : lib.DocumentedBands)
    {melDb : Grid K} (hrows : 0 < melDb.rows) (start : ℕ) :
    ∃ bands, selectBands lib melDb start = .ok bands ∧
      (FollowsAudible melDb start bands ↔
        min offsetBandCount melDb.rows ≤ audibleCount melDb start) := by
  let ranks := (List.range melDb.rows).map (rank melDb start)
  have h : IsArgsort ⊥ ranks (lib.argsort ranks) := hlib.argsort ranks
  have hlen : ranks.length = melDb.rows := by simp [ranks]
  have hget (i : ℕ) (hi : i < melDb.rows) : ranks.getD i ⊥ = rank melDb start i := by
    simp [ranks, hi]
  have hcount := h.length_last (k := offsetBandCount)
  have hle : ranks.countP (fun r => decide (r ≠ ⊥)) ≤ ranks.length := List.countP_le_length
  rw [hlen] at hcount hle
  rw [audibleCount_eq, selectBands_eq lib hrows]
  refine ⟨_, rfl, fun hf => ?_, fun hmany => ?_⟩
  · have hnumber := hf.count
    rw [audibleCount_eq] at hnumber
    exact (hcount.symm.trans hnumber).le.trans (min_le_right _ _)
  have haudible (band : ℕ) (hband : band ∈ last (lib.argsort ranks) offsetBandCount) :
      band < melDb.rows ∧ Audible melDb start band := by
    have hlt := hlen ▸ h.lt_of_mem_last hband
    have hrank := h.last_of_countP (p := fun r => decide (r ≠ ⊥))
      (fun y z hyz hy => decide_eq_true (ne_bot_of_le_ne_bot (of_decide_eq_true hy) hyz))
      (by rwa [hlen]) hband
    rw [hget band hlt, decide_eq_true_iff] at hrank
    exact ⟨hlt, not_not.mp fun hnot => hrank (rank_eq_bot_iff.mpr hnot)⟩
  constructor
  case audible => exact haudible
  case distinct => exact h.nodup_last
  case count =>
    rw [audibleCount_eq, hcount]
    exact le_antisymm (le_min (min_le_left _ _) hmany) (min_le_min_left _ hle)
  case best =>
    intro out hout hloud hleft band hband
    obtain ⟨hlt, hloud'⟩ := haudible band hband
    have hrank := h.getD_le_of_notMem (by rwa [hlen]) hleft hband
    rw [hget out hout, hget band hlt, rank_le_rank_iff hloud hloud'] at hrank
    exact hrank.not_gt

end Levels

namespace Sample

def tone : Grid ℚ := ⟨64, 1, fun band _ => if band = 20 then 0 else -80⟩

end Sample

open Sample in
theorem selectBands_followsAudible_iff_sample :
    ∃ bands, selectBands (hearing [] fun _ => 1) ⟨2, 1, fun _ _ => 0⟩ 0 = .ok bands ∧
      (FollowsAudible (K := ℚ) ⟨2, 1, fun _ _ => 0⟩ 0 bands ↔
        min offsetBandCount 2 ≤ audibleCount (K := ℚ) ⟨2, 1, fun _ _ => 0⟩ 0) :=
  selectBands_followsAudible_iff (hearing_documentedBands _ _) (by decide) 0

open Sample in
/-- Five bands are followed although only one is audible. -/
theorem not_followsAudible_tone :
    (hearing [] fun _ => 1).DocumentedBands ∧
      selectBands (hearing [] fun _ => 1) tone 0 = .ok [60, 61, 62, 63, 20] ∧
      ¬ FollowsAudible tone 0 [60, 61, 62, 63, 20] := by
  refine ⟨hearing_documentedBands _ _, ?_, ?_⟩
  · rw [selectBands_eq _ (by decide)]
    exact congrArg Except.ok (by decide +kernel)
  · intro h
    have hcount := h.count
    revert hcount
    decide +kernel

end Maps
