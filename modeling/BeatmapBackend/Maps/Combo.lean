import BeatmapBackend.Maps.NotesService
import Mathlib.Data.Rat.Floor

/-! The combo of a melody note. It divides the milliseconds of a hold by the tempo, so it grows
with the hold but falls with the tempo. -/
namespace Maps
open Numerics

section Combo

variable {duration duration' bpm bpm' : ℤ}

theorem calculateMelodyCombo_eq (hb : 1 ≤ bpm) :
    calculateMelodyCombo duration bpm = .ok (max 1 (duration / bpm)) := by
  have hne : bpm ≠ 0 := by omega
  have hdiv : duration.fdiv bpm = duration / bpm := Int.fdiv_eq_ediv_of_nonneg _ (by omega)
  simp only [calculateMelodyCombo, floorDiv, if_neg hne, hdiv]
  rfl

theorem combo_mono (hb : 1 ≤ bpm) (h : duration ≤ duration') :
    max 1 (duration / bpm) ≤ max 1 (duration' / bpm) :=
  max_le_max le_rfl (Int.ediv_le_ediv (by omega) h)

/-- A hold shorter than two tempos in milliseconds has the least combo. -/
theorem combo_eq_one_iff (hb : 1 ≤ bpm) : max 1 (duration / bpm) = 1 ↔ duration < 2 * bpm := by
  rw [max_eq_left_iff, ← Int.lt_add_one_iff, Int.ediv_lt_iff_lt_mul (by omega)]
  norm_num

/-- Twice the hold and twice the tempo agree on nothing but the least combo. -/
theorem combo_double_iff (hb : 1 ≤ bpm) :
    max 1 (2 * duration / bpm) = max 1 (duration / (2 * bpm)) ↔ duration < bpm := by
  have hslow : duration / (2 * bpm) = duration / bpm / 2 := by
    rw [Int.mul_comm, Int.ediv_ediv_of_nonneg (by omega)]
  have hfast : 2 * (duration / bpm) ≤ 2 * duration / bpm := by
    rw [Int.le_ediv_iff_mul_le (by omega), Int.mul_assoc]
    have h := Int.ediv_mul_le duration (show bpm ≠ 0 by omega)
    omega
  constructor
  · intro heq
    by_contra hlong
    have hone : 1 ≤ duration / bpm := by
      rw [Int.le_ediv_iff_mul_le (by omega)]
      omega
    omega
  · intro hshort
    have hone : max 1 (2 * duration / bpm) = 1 := (combo_eq_one_iff hb).mpr (by omega)
    have hone' : max 1 (duration / (2 * bpm)) = 1 :=
      (combo_eq_one_iff (by omega)).mpr (by omega)
    rw [hone, hone']

end Combo

variable {K : Type} [Field K] [LinearOrder K] [FloorRing K]

/-- What the combo of the note of a hold satisfies when it counts the beats of the hold. -/
structure CountsBeats (onset offset : K) (bpm : ℤ) (note : Note K) : Prop where
  one_le : 1 ≤ note.combo
  longer : ∀ onset' offset' lane energy note', offset - onset ≤ offset' - onset' →
    buildMelodyNote onset' offset' lane energy bpm = .ok note' → note.combo ≤ note'.combo
  faster : ∀ bpm' lane energy note', bpm ≤ bpm' →
    buildMelodyNote onset offset lane energy bpm' = .ok note' → note.combo ≤ note'.combo
  /-- Twice the hold and twice the tempo are the same number of beats. -/
  product : ∀ duration, note.duration = some duration →
    calculateMelodyCombo (2 * duration) bpm = calculateMelodyCombo duration (2 * bpm)

def holdMs (onset offset : K) : ℤ := roundHalfEven ((offset - onset) * 1000)

theorem buildMelodyNote_ok (onset offset : K) (lane : ℕ) (energy : K) {bpm : ℤ} (hb : 1 ≤ bpm) :
    buildMelodyNote onset offset lane energy bpm = .ok {
      time := roundHalfEven (onset * 1000)
      duration := some (holdMs onset offset)
      lane := lane
      energy := energy
      noteType := .melody
      combo := max 1 (holdMs onset offset / bpm) } := by
  rw [buildMelodyNote, ← holdMs, calculateMelodyCombo_eq hb]
  rfl

theorem combo_of_buildMelodyNote {onset offset energy : K} {lane : ℕ} {bpm : ℤ} (hb : 1 ≤ bpm)
    {note : Note K} (h : buildMelodyNote onset offset lane energy bpm = .ok note) :
    note.combo = max 1 (holdMs onset offset / bpm) := by
  rw [buildMelodyNote_ok onset offset lane energy hb] at h
  cases h
  rfl

variable [IsStrictOrderedRing K]

theorem holdMs_mono {onset offset onset' offset' : K} (h : offset - onset ≤ offset' - onset') :
    holdMs onset offset ≤ holdMs onset' offset' :=
  roundHalfEven_mono (mul_le_mul_of_nonneg_right h (Nat.cast_nonneg 1000))

/-- The combo counts beats for the holds that have fewer milliseconds than the tempo has beats
per minute, and for no other. -/
theorem buildMelodyNote_countsBeats_iff (onset offset : K) (lane : ℕ) (energy : K) {bpm : ℤ}
    (hb : 1 ≤ bpm) :
    (∃ note, buildMelodyNote onset offset lane energy bpm = .ok note ∧
      CountsBeats onset offset bpm note) ↔
    (offset - onset) * 1000 < bpm - 1 / 2 ∨
      (offset - onset) * 1000 = bpm - 1 / 2 ∧ Odd bpm := by
  rw [← roundHalfEven_lt_iff, ← holdMs]
  constructor
  · rintro ⟨note, hnote, hcounts⟩
    rw [buildMelodyNote_ok onset offset lane energy hb] at hnote
    cases hnote
    have hproduct := hcounts.product _ rfl
    rw [calculateMelodyCombo_eq hb, calculateMelodyCombo_eq (by omega)] at hproduct
    exact (combo_double_iff hb).mp (Except.ok.inj hproduct)
  · intro hshort
    refine ⟨_, buildMelodyNote_ok onset offset lane energy hb, ?_⟩
    constructor
    case one_le => exact le_max_left _ _
    case longer =>
      intro onset' offset' lane' energy' note' hlonger hnote'
      rw [combo_of_buildMelodyNote hb hnote']
      exact combo_mono hb (holdMs_mono hlonger)
    case faster =>
      intro bpm' lane' energy' note' hfaster hnote'
      rw [combo_of_buildMelodyNote (by omega) hnote']
      exact ((combo_eq_one_iff hb).mpr (by omega)).trans_le (le_max_left _ _)
    case product =>
      intro duration hduration
      obtain rfl := Option.some.inj hduration
      rw [calculateMelodyCombo_eq hb, calculateMelodyCombo_eq (by omega),
        (combo_double_iff hb).mpr hshort]

/-- A tenth of a second at 120 beats per minute. -/
theorem buildMelodyNote_countsBeats_iff_sample :
    ∃ note, buildMelodyNote (0 : ℚ) (1 / 10) 0 1 120 = .ok note ∧
      CountsBeats (0 : ℚ) (1 / 10) 120 note :=
  (buildMelodyNote_countsBeats_iff 0 (1 / 10) 0 1 (by norm_num)).mpr (.inl (by norm_num))

/-- Two seconds at 120 beats per minute count as 16 beats, and as 8 at twice the tempo. -/
theorem buildMelodyNote_not_countsBeats :
    ¬ ∃ note, buildMelodyNote (0 : ℚ) 2 0 1 120 = .ok note ∧ CountsBeats (0 : ℚ) 2 120 note := by
  rintro ⟨note, hnote, hcounts⟩
  have hslow := combo_of_buildMelodyNote (by decide) hnote
  have hfast := buildMelodyNote_ok (0 : ℚ) 2 0 1 (show (1 : ℤ) ≤ 240 by decide)
  have hle := hcounts.faster 240 0 1 _ (by decide) hfast
  rw [hslow] at hle
  exact absurd hle (by decide +kernel)

end Maps
