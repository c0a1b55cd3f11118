import Mathlib.Algebra.Order.Floor.Ring
import Mathlib.Algebra.Order.Field.Basic
import Mathlib.Algebra.Ring.Parity
import Mathlib.Tactic.Linarith

/-! Rounding half to even over an ordered field. -/
namespace Numerics

variable {K : Type} [Field K] [LinearOrder K] [IsStrictOrderedRing K] [FloorRing K]

/-! The numerals of the constants, each with one proof that it is a numeral of `K`. -/

instance atLeastTwo_two : Nat.AtLeastTwo 2 := ⟨le_rfl⟩
instance atLeastTwo_ten : Nat.AtLeastTwo 10 := ⟨by decide⟩
instance atLeastTwo_thousand : Nat.AtLeastTwo 1000 := ⟨by decide⟩

/-- The nearest integer, and the even one of two nearest integers. -/
def roundHalfEven (x : K) : ℤ :=
  if Int.fract x < 1 / 2 then ⌊x⌋
  else if 1 / 2 < Int.fract x then ⌊x⌋ + 1
  else if Even ⌊x⌋ then ⌊x⌋ else ⌊x⌋ + 1

omit [IsStrictOrderedRing K] in
theorem floor_le_roundHalfEven (x : K) : ⌊x⌋ ≤ roundHalfEven x := by
  unfold roundHalfEven
  split_ifs <;> omega

omit [IsStrictOrderedRing K] in
theorem roundHalfEven_le_floor_add_one (x : K) : roundHalfEven x ≤ ⌊x⌋ + 1 := by
  unfold roundHalfEven
  split_ifs <;> omega

@[simp] theorem roundHalfEven_intCast (n : ℤ) : roundHalfEven (n : K) = n := by
  have h : (0 : K) < 1 / 2 := by norm_num
  simp [roundHalfEven]

@[simp] theorem roundHalfEven_zero : roundHalfEven (0 : K) = 0 := by
  simpa using roundHalfEven_intCast (K := K) 0

/-- Different floors are kept apart; equal floors are ordered by the fractional part. -/
theorem roundHalfEven_mono {x y : K} (h : x ≤ y) : roundHalfEven x ≤ roundHalfEven y := by
  rcases (Int.floor_mono h).lt_or_eq with hlt | heq
  · calc roundHalfEven x ≤ ⌊x⌋ + 1 := roundHalfEven_le_floor_add_one x
      _ ≤ ⌊y⌋ := hlt
      _ ≤ roundHalfEven y := floor_le_roundHalfEven y
  · have hfract : Int.fract x ≤ Int.fract y := by
      unfold Int.fract
      rw [heq]
      exact sub_le_sub_right h _
    unfold roundHalfEven
    rw [heq]
    by_cases hx : Int.fract x < 1 / 2
    · rw [if_pos hx]
      split_ifs <;> omega
    · have hy : ¬ Int.fract y < 1 / 2 := fun hlt => hx (hfract.trans_lt hlt)
      rw [if_neg hx, if_neg hy]
      by_cases hx' : 1 / 2 < Int.fract x
      · rw [if_pos hx', if_pos (hx'.trans_le hfract)]
      · rw [if_neg hx']
        split_ifs <;> omega

theorem roundHalfEven_nonneg {x : K} (h : 0 ≤ x) : 0 ≤ roundHalfEven x := by
  simpa using roundHalfEven_mono h

theorem roundHalfEven_le_of_le {x : K} {n : ℤ} (h : x ≤ n) : roundHalfEven x ≤ n := by
  simpa using roundHalfEven_mono h

theorem roundHalfEven_bounds (x : K) :
    x - 1 / 2 ≤ roundHalfEven x ∧ (roundHalfEven x : K) ≤ x + 1 / 2 := by
  have hsplit := Int.floor_add_fract x
  have hnonneg := Int.fract_nonneg x
  have hlt := Int.fract_lt_one x
  unfold roundHalfEven
  split_ifs <;> push_cast <;> constructor <;> linarith

/-- Two parts that are rounded apart exceed the whole, rounded as well, by one at most. -/
theorem roundHalfEven_add_le {x y z : K} (h : x + y ≤ z) :
    roundHalfEven x + roundHalfEven y ≤ roundHalfEven z + 1 := by
  have hx := (roundHalfEven_bounds x).2
  have hy := (roundHalfEven_bounds y).2
  have hz := (roundHalfEven_bounds z).1
  have hlt : ((roundHalfEven x + roundHalfEven y : ℤ) : K) < (roundHalfEven z + 2 : ℤ) := by
    push_cast
    linarith
  have hlt : roundHalfEven x + roundHalfEven y < roundHalfEven z + 2 := by exact_mod_cast hlt
  omega

/-- The tie below `n` goes to `n` when `n` is even. -/
theorem roundHalfEven_tie (n : ℤ) :
    roundHalfEven ((n : K) - 1 / 2) = if Even n then n else n - 1 := by
  have hfloor : ⌊(n : K) - 1 / 2⌋ = n - 1 := by
    rw [Int.floor_eq_iff]
    push_cast
    constructor <;> linarith
  have hfract : Int.fract ((n : K) - 1 / 2) = 1 / 2 := by
    rw [Int.fract, hfloor]
    push_cast
    linarith
  rw [roundHalfEven, hfract, hfloor, if_neg (lt_irrefl _), if_neg (lt_irrefl _)]
  by_cases heven : Even n
  · rw [if_neg (by rwa [Int.even_sub_one, not_not]), if_pos heven, sub_add_cancel]
  · rw [if_pos (Int.even_sub_one.mpr heven), if_neg heven]

/-- An integer is reached from the tie below it on, which goes to it when it is even. -/
theorem roundHalfEven_lt_iff {x : K} {n : ℤ} :
    roundHalfEven x < n ↔ x < n - 1 / 2 ∨ x = n - 1 / 2 ∧ Odd n := by
  have hbounds := roundHalfEven_bounds x
  rcases lt_trichotomy x (n - 1 / 2) with hlt | heq | hgt
  · have hround : (roundHalfEven x : K) < n := by linarith
    exact iff_of_true (by exact_mod_cast hround) (.inl hlt)
  · rw [heq, roundHalfEven_tie, ← Int.not_even_iff_odd]
    split_ifs with heven
    · simp [heven]
    · simp [heven]
  · have hround : ((n - 1 : ℤ) : K) < roundHalfEven x := by
      push_cast
      linarith
    have hround : n - 1 < roundHalfEven x := by exact_mod_cast hround
    apply iff_of_false (by omega)
    rintro (hlt | ⟨heq, -⟩)
    · exact hlt.not_gt hgt
    · exact hgt.ne' heq

end Numerics
