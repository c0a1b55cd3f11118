import BeatmapBackend.Maps.NotesBounds
import Mathlib.Data.Rat.Floor
import Mathlib.Tactic.FieldSimp

/-! The energies of drum and of melody notes: the two ways of reading an envelope at a time
agree, whatever the envelope and the time. -/
namespace Maps
open Numerics

variable {K : Type} [Field K] [LinearOrder K] [FloorRing K]

/-- The frame both ways read, of an envelope with `length` entries. -/
def strengthFrame (sr hop length : ℕ) (t : K) : ℤ :=
  max 0 (min (roundHalfEven (t * ((sr : K) / hop))) (length - 1))

variable {o : KickOnseter K} {sr hop : ℕ} {e : List K} {x peak : K} {xs : List K}

theorem strengthAt_eq (hodf : o.odf = some (x :: xs)) (hrate : o.frameRate = some ((sr : K) / hop))
    (t : K) : o.strengthAt t = if amax x xs ≤ 0 then 0
      else clip ((x :: xs).getD (strengthFrame sr hop (x :: xs).length t).toNat 0 / amax x xs)
        0 1 := by
  unfold KickOnseter.strengthAt
  simp only [hodf, hrate]
  rfl

theorem strengthAt_nil (hodf : o.odf = some []) (t : K) : o.strengthAt t = 0 := by
  unfold KickOnseter.strengthAt
  simp only [hodf]

/-- The clamps of the two ways are written in either order. -/
theorem clip_eq_strengthFrame {length : ℕ} (hlength : 0 < length) (t : K) :
    clip (roundHalfEven (t * sr / hop)) 0 ((length : ℤ) - 1) = strengthFrame sr hop length t := by
  have hle : (0 : ℤ) ≤ (length : ℤ) - 1 := by omega
  rw [strengthFrame, clip, mul_div_assoc, max_comm, max_min_distrib_left, max_eq_right hle]

theorem onsetStrengths_eq (hodf : o.odf = some e) (hrate : o.frameRate = some ((sr : K) / hop))
    (times : List K) : onsetStrengths e sr times hop = times.map o.strengthAt := by
  cases e with
  | nil =>
    rw [onsetStrengths]
    exact List.map_congr_left fun t _ => (strengthAt_nil hodf t).symm
  | cons x xs =>
    have hlength : 0 < (x :: xs).length := Nat.succ_pos _
    have hentry := strengthAt_eq hodf hrate
    rw [onsetStrengths]
    dsimp only
    by_cases hpeak : amax x xs ≤ 0
    · rw [if_pos hpeak]
      apply List.map_congr_left
      intro t _
      rw [hentry, if_pos hpeak]
    · rw [if_neg hpeak]
      apply List.map_congr_left
      intro t _
      rw [hentry, if_neg hpeak, clip_eq_strengthFrame hlength]

theorem strengthAt_eq_zero (hodf : o.odf = some e) (hrate : o.frameRate = some ((sr : K) / hop))
    (hsilent : ∀ v ∈ e, v ≤ 0) (t : K) : o.strengthAt t = 0 := by
  cases e with
  | nil => exact strengthAt_nil hodf t
  | cons x xs => rw [strengthAt_eq hodf hrate, if_pos (hsilent _ (amax_mem x xs))]

variable [IsStrictOrderedRing K]

/-- A frame is found again from the time at which it starts. -/
theorem strengthFrame_frameTime (hsr : 0 < sr) (hhop : 0 < hop) {k length : ℕ}
    (hk : k < length) : strengthFrame sr hop length (frameTime sr hop k : K) = k := by
  have hsr' : (sr : K) ≠ 0 := by exact_mod_cast hsr.ne'
  have hhop' : (hop : K) ≠ 0 := by exact_mod_cast hhop.ne'
  have htrip : frameTime sr hop k * ((sr : K) / hop) = ((k : ℤ) : K) := by
    unfold frameTime
    push_cast
    field_simp
  rw [strengthFrame, htrip, roundHalfEven_intCast]
  omega

theorem strengthAt_frameTime (hodf : o.odf = some e) (hrate : o.frameRate = some ((sr : K) / hop))
    (hsr : 0 < sr) (hhop : 0 < hop) (hpeak : IsGreatest {v | v ∈ e} peak) (hpos : 0 < peak)
    {k : ℕ} (hk : k < e.length) : o.strengthAt (frameTime sr hop k) = clip (e[k] / peak) 0 1 := by
  cases e with
  | nil => exact (Nat.not_lt_zero k hk).elim
  | cons x xs =>
    obtain rfl := (isGreatest_amax x xs).unique hpeak
    rw [strengthAt_eq hodf hrate, if_neg hpos.not_ge, strengthFrame_frameTime hsr hhop hk,
      Int.toNat_natCast, List.getD_eq_getElem _ _ hk]

/-- The energies of a list of onsets are those of an onseter that remembers the envelope. They
lie between zero and one, are zero for an envelope without a positive entry, and at the time of
a frame are its entry relative to the greatest. -/
theorem onsetStrengths_eq_strengthAt (hodf : o.odf = some e)
    (hrate : o.frameRate = some ((sr : K) / hop)) (hsr : 0 < sr) (hhop : 0 < hop)
    (times : List K) :
    onsetStrengths e sr times hop = times.map o.strengthAt ∧
    (∀ t, 0 ≤ o.strengthAt t ∧ o.strengthAt t ≤ 1) ∧
    ((∀ v ∈ e, v ≤ 0) → ∀ t, o.strengthAt t = 0) ∧
    ∀ peak, IsGreatest {v | v ∈ e} peak → 0 < peak → ∀ (k : ℕ) (hk : k < e.length),
      o.strengthAt (frameTime sr hop k) = clip (e[k] / peak) 0 1 ∧
        (e[k] = peak → o.strengthAt (frameTime sr hop k) = 1) := by
  refine ⟨onsetStrengths_eq hodf hrate times, o.strengthAt_mem,
    strengthAt_eq_zero hodf hrate, ?_⟩
  intro peak hpeak hpos k hk
  have hframe := strengthAt_frameTime hodf hrate hsr hhop hpeak hpos hk
  refine ⟨hframe, fun hmax => ?_⟩
  rw [hframe, hmax, div_self hpos.ne', clip, max_eq_left zero_le_one, min_self]

namespace Sample

def heard : KickOnseter ℚ :=
  { KickOnseter.new 22050 with odf := some [1, 3, -2], frameRate := some (22050 / 512) }

end Sample

open Sample in
theorem onsetStrengths_eq_strengthAt_sample :
    onsetStrengths [1, 3, -2] 22050 [-1, frameTime 22050 512 1, 9] 512 =
      [-1, frameTime 22050 512 1, 9].map heard.strengthAt ∧
    heard.strengthAt (frameTime 22050 512 1) = 1 := by
  have hodf : heard.odf = some [1, 3, -2] := rfl
  have hrate : heard.frameRate = some (((22050 : ℕ) : ℚ) / (512 : ℕ)) := rfl
  obtain ⟨hsame, -, -, hframe⟩ := onsetStrengths_eq_strengthAt hodf hrate (by decide) (by decide)
    [-1, frameTime 22050 512 1, 9]
  exact ⟨hsame, (hframe _ (isGreatest_amax 1 [3, -2]) (by decide +kernel) 1 (by decide)).2
    (by decide +kernel)⟩

end Maps
