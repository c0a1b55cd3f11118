import BeatmapBackend.Numerics.Arrays
import Mathlib.Algebra.Order.Field.Basic
import Mathlib.Algebra.Order.Floor.Semiring
import Mathlib.Data.Finset.Card
import Mathlib.Data.List.GetD
import Mathlib.Tactic.Linarith
import Mathlib.Tactic.Ring

/-! Order statistics of a list and the quantile interpolated between two of them: how many
entries lie below, what a scaling does, and how far altered entries can move them. -/
namespace Numerics

section Sorted

variable {K : Type} [LinearOrder K] {xs : List K} {k : ℕ}

theorem sort_perm (xs : List K) : (sort xs).Perm xs := List.perm_insertionSort _ xs

theorem sortedLE_sort (xs : List K) : (sort xs).SortedLE := List.sortedLE_insertionSort

theorem sort_map {f : K → K} (hf : Monotone f) (xs : List K) :
    sort (xs.map f) = (sort xs).map f := by
  apply List.Perm.eq_of_sortedLE (sortedLE_sort _)
  · exact (List.pairwise_map.mpr ((sortedLE_sort xs).pairwise.imp fun h => hf h)).sortedLE
  · exact (sort_perm _).trans ((sort_perm xs).map f).symm

theorem unique_pairwise (xs : List K) : (unique xs).Pairwise (· < ·) := by
  have hle : (unique xs).Pairwise (· ≤ ·) :=
    (sortedLE_sort xs).pairwise.sublist (List.dedup_sublist _)
  have hne : (unique xs).Pairwise (· ≠ ·) := List.nodup_dedup _
  exact (hle.and hne).imp fun h => h.1.lt_of_ne h.2

/-- A property that passes to smaller entries holds of the first entries of a sorted list. -/
theorem getElem_iff_lt_countP {p : K → Bool} (hp : ∀ y z, z ≤ y → p y → p z)
    (hxs : xs.SortedLE) (hk : k < xs.length) : p xs[k] ↔ k < xs.countP p := by
  induction xs generalizing k with
  | nil => simp at hk
  | cons a xs ih =>
    obtain ⟨hhead, htail⟩ := List.pairwise_cons.mp hxs.pairwise
    by_cases ha : p a
    · rw [List.countP_cons_of_pos ha]
      cases k with
      | zero => simpa using ha
      | succ k =>
        rw [List.getElem_cons_succ, ih htail.sortedLE]
        omega
    · have hnone : xs.countP p = 0 := by
        apply List.countP_eq_zero.mpr
        intro y hy hpy
        exact ha (hp y a (hhead y hy) hpy)
      rw [List.countP_cons_of_neg ha, hnone]
      cases k with
      | zero => simpa using ha
      | succ k => simpa using fun hpk => ha (hp _ a (hhead _ (List.getElem_mem _)) hpk)

end Sorted

section Ranks

variable {K I : Type} [AddCommGroup K] {xs ys : List K} {pairs : List I}

theorem eq_map_getD (xs : List K) : xs = (List.range xs.length).map fun i => xs.getD i 0 := by
  apply List.ext_getElem
  · simp
  · intro i hi hi'
    simp [hi]

/-- The entries of a list, in the order in which `pairs` names their indices. -/
theorem perm_map_getD {f : I → ℕ} (hnodup : (pairs.map f).Nodup)
    (hlt : ∀ p ∈ pairs, f p < xs.length) (hall : ∀ i < xs.length, i ∈ pairs.map f) :
    xs.Perm (pairs.map fun p => xs.getD (f p) 0) := by
  have hperm : (List.range xs.length).Perm (pairs.map f) := by
    apply (List.perm_ext_iff_of_nodup List.nodup_range hnodup).mpr
    intro i
    rw [List.mem_range]
    refine ⟨hall i, fun hi => ?_⟩
    obtain ⟨p, hp, rfl⟩ := List.mem_map.mp hi
    exact hlt p hp
  have hmap := hperm.map fun i => xs.getD i 0
  rwa [← eq_map_getD, List.map_map] at hmap

variable [LinearOrder K] [IsOrderedAddMonoid K]

/-- Entries that some pairing keeps close from above are so by their ranks. -/
theorem getElem_le_add {f g : I → K} {e : K} (hxs : xs.SortedLE) (hys : ys.SortedLE)
    (hf : xs.Perm (pairs.map f)) (hg : ys.Perm (pairs.map g))
    (hclose : ∀ p ∈ pairs, g p ≤ f p + e) {k : ℕ} (hk : k < xs.length) (hk' : k < ys.length) :
    ys[k] ≤ xs[k] + e := by
  have hrank {zs : List K} (hzs : zs.SortedLE) (hk : k < zs.length) (z : K) :
      zs[k] ≤ z ↔ k < zs.countP fun y => decide (y ≤ z) := by
    rw [← getElem_iff_lt_countP _ hzs hk, decide_eq_true_iff]
    intro y z' hzy hy
    exact decide_eq_true (hzy.trans (of_decide_eq_true hy))
  have hcount : xs.countP (fun y => decide (y ≤ xs[k])) ≤
      ys.countP fun y => decide (y ≤ xs[k] + e) := by
    rw [hf.countP_eq, hg.countP_eq, List.countP_map, List.countP_map]
    apply List.countP_mono_left
    intro p hp hle
    have hle : f p ≤ xs[k] := of_decide_eq_true hle
    exact decide_eq_true ((hclose p hp).trans (add_le_add_left hle e))
  exact (hrank hys hk' _).mpr (((hrank hxs hk _).mp le_rfl).trans_le hcount)

end Ranks

section Smallest

variable {K : Type} [LinearOrder K] [Zero K] {xs ys : List K} {x : K} {k l m : ℕ}

/-- The entry of rank `k`, counted from zero. -/
def smallest (xs : List K) (k : ℕ) : K := (sort xs).getD k 0

theorem smallest_eq_getElem (hk : k < (sort xs).length) : smallest xs k = (sort xs)[k] :=
  List.getD_eq_getElem _ _ hk

theorem smallest_iff_lt_countP {p : K → Bool} (hp : ∀ y z, z ≤ y → p y → p z)
    (hk : k < xs.length) : p (smallest xs k) ↔ k < xs.countP p := by
  rw [smallest_eq_getElem (by simpa using hk), getElem_iff_lt_countP hp (sortedLE_sort xs),
    (sort_perm xs).countP_eq]

theorem smallest_le_iff (hk : k < xs.length) :
    smallest xs k ≤ x ↔ k < xs.countP fun y => decide (y ≤ x) := by
  rw [← smallest_iff_lt_countP _ hk, decide_eq_true_iff]
  intro y z hzy hy
  exact decide_eq_true (hzy.trans (of_decide_eq_true hy))

theorem smallest_lt_iff (hk : k < xs.length) :
    smallest xs k < x ↔ k < xs.countP fun y => decide (y < x) := by
  rw [← smallest_iff_lt_countP _ hk, decide_eq_true_iff]
  intro y z hzy hy
  exact decide_eq_true (hzy.trans_lt (of_decide_eq_true hy))

theorem smallest_mono (hkl : k ≤ l) (hl : l < xs.length) : smallest xs k ≤ smallest xs l := by
  rw [smallest_eq_getElem (by simpa using hkl.trans_lt hl), smallest_eq_getElem (by simpa using hl)]
  exact (sortedLE_sort xs).getElem_le_getElem_of_le hkl

theorem smallest_strictMono (hxs : xs.Nodup) (hkl : k < l) (hl : l < xs.length) :
    smallest xs k < smallest xs l := by
  rw [smallest_eq_getElem (by simpa using hkl.trans hl), smallest_eq_getElem (by simpa using hl)]
  have hlt := (sortedLE_sort xs).sortedLT_of_nodup ((sort_perm xs).nodup_iff.mpr hxs)
  exact hlt.getElem_lt_getElem_iff.mpr hkl

theorem countP_eq_card {α : Type} (p : α → Bool) (as : List α) :
    as.countP p = ((Finset.range as.length).filter fun i => as[i]?.any p).card := by
  have hrange : as.countP p = (List.range as.length).countP fun i => as[i]?.any p := by
    induction as using List.reverseRecOn with
    | nil => simp
    | append_singleton as a ih =>
      rw [List.countP_append, ih, List.length_append, List.length_singleton, List.range_succ,
        List.countP_append]
      congr 1
      · apply List.countP_congr
        intro i hi
        rw [List.getElem?_append_left (by simpa using hi)]
      · simp [List.countP_singleton]
  rw [hrange, List.countP_eq_length_filter,
    ← List.toFinset_card_of_nodup (List.nodup_range.filter _)]
  apply congrArg Finset.card
  ext i
  simp

/-- Lists that agree outside `s` differ by at most `s.card` in any count. -/
theorem countP_le_add_card {α : Type} {as bs : List α} {s : Finset ℕ} (p : α → Bool)
    (hlen : as.length = bs.length) (hagree : ∀ i ∉ s, as[i]? = bs[i]?) :
    as.countP p ≤ bs.countP p + s.card := by
  rw [countP_eq_card p as, countP_eq_card p bs, ← hlen]
  apply (Finset.card_le_card _).trans (Finset.card_union_le _ _)
  intro i hi
  by_cases hs : i ∈ s
  · exact Finset.mem_union_right _ hs
  · rw [Finset.mem_filter, hagree i hs] at hi
    exact Finset.mem_union_left _ (Finset.mem_filter.mpr hi)

/-- Altering the entries of `s` moves an entry of the sorted list by at most `s.card` ranks. -/
theorem smallest_le_smallest_add {s : Finset ℕ} (hlen : xs.length = ys.length)
    (hagree : ∀ i ∉ s, xs[i]? = ys[i]?) (hk : k + s.card < xs.length) :
    smallest ys k ≤ smallest xs (k + s.card) := by
  have hcount : k + s.card < xs.countP fun y => decide (y ≤ smallest xs (k + s.card)) :=
    (smallest_le_iff hk).mp le_rfl
  have hmove := countP_le_add_card (fun y => decide (y ≤ smallest xs (k + s.card))) hlen hagree
  rw [smallest_le_iff (by omega)]
  omega

/-- Few enough alterations leave alone an entry that is at least as large. -/
theorem exists_unaltered_ge (xs : List K) {s : Finset ℕ} (hk : k + s.card < xs.length) :
    ∃ i ∉ s, ∃ x, xs[i]? = some x ∧ smallest xs k ≤ x := by
  by_contra hnone
  push Not at hnone
  have hbelow : ¬ k < xs.countP fun y => decide (y < smallest xs k) := by
    rw [← smallest_lt_iff (by omega)]
    exact lt_irrefl _
  have habove : xs.countP (fun y => decide (smallest xs k ≤ y)) ≤ s.card := by
    rw [countP_eq_card]
    apply Finset.card_le_card
    intro i hi
    by_contra hs
    have hany := (Finset.mem_filter.mp hi).2
    cases hx : xs[i]? with
    | none => simp [hx] at hany
    | some x =>
      rw [hx, Option.any_some, decide_eq_true_iff] at hany
      exact not_lt.mpr hany (hnone i hs x hx)
  have hsplit := List.length_eq_countP_add_countP (fun y => decide (y < smallest xs k)) (l := xs)
  simp only [decide_eq_true_eq, not_lt] at hsplit
  omega

end Smallest

section Quantile

variable {K : Type} [Field K] [LinearOrder K] {xs : List K} {q r : K} {k : ℕ}

/-- Where a quantile lies among the ranks. -/
def position (xs : List K) (q : K) : K := q * (xs.length - 1 : ℕ)

theorem quantile_eq [FloorRing K] (xs : List K) (q : K) :
    quantile xs q = smallest xs ⌊position xs q⌋₊ +
      (smallest xs (min (⌊position xs q⌋₊ + 1) (xs.length - 1)) -
        smallest xs ⌊position xs q⌋₊) * (position xs q - ⌊position xs q⌋₊) := rfl

variable [IsStrictOrderedRing K]

theorem position_nonneg (hq : 0 ≤ q) : 0 ≤ position xs q :=
  mul_nonneg hq (Nat.cast_nonneg _)

theorem position_le (hq : q ≤ 1) : position xs q ≤ (xs.length - 1 : ℕ) :=
  mul_le_of_le_one_left (Nat.cast_nonneg _) hq

theorem position_mono (h : q ≤ r) : position xs q ≤ position xs r :=
  mul_le_mul_of_nonneg_right h (Nat.cast_nonneg _)

theorem smallest_map_mul {g : K} (hg : 0 ≤ g) (xs : List K) (k : ℕ) :
    smallest (xs.map fun x => g * x) k = g * smallest xs k := by
  rw [smallest, sort_map (fun a b hab => mul_le_mul_of_nonneg_left hab hg), smallest]
  conv_lhs => rw [← mul_zero g]
  exact List.getD_map _ _ (fun x => g * x)

variable [FloorRing K]

theorem ceil_position_lt (hxs : xs ≠ []) (hq : q ≤ 1) : ⌈position xs q⌉₊ < xs.length := by
  have hceil : ⌈position xs q⌉₊ ≤ xs.length - 1 := Nat.ceil_le.mpr (position_le hq)
  have hpos := List.length_pos_iff.mpr hxs
  omega

/-- A quantile is an entry of the sorted list, or lies between two neighbours. -/
theorem quantile_cases (hxs : xs ≠ []) (h0 : 0 ≤ q) (h1 : q ≤ 1) :
    (position xs q = ⌊position xs q⌋₊ ∧ quantile xs q = smallest xs ⌊position xs q⌋₊) ∨
      (⌊position xs q⌋₊ < position xs q ∧ position xs q < ⌊position xs q⌋₊ + 1 ∧
        ⌈position xs q⌉₊ = ⌊position xs q⌋₊ + 1 ∧
        quantile xs q = smallest xs ⌊position xs q⌋₊ +
          (smallest xs (⌊position xs q⌋₊ + 1) - smallest xs ⌊position xs q⌋₊) *
            (position xs q - ⌊position xs q⌋₊)) := by
  have hfloor := Nat.floor_le (show 0 ≤ position xs q from position_nonneg h0)
  rcases hfloor.eq_or_lt with heq | hlt
  · left
    refine ⟨heq.symm, ?_⟩
    rw [quantile_eq, heq, sub_self, mul_zero, add_zero]
  · right
    have hnext := Nat.lt_floor_add_one (position xs q)
    have hceil : ⌈position xs q⌉₊ = ⌊position xs q⌋₊ + 1 := by
      apply (Nat.ceil_eq_iff (Nat.succ_ne_zero _)).mpr
      push_cast
      exact ⟨by simpa using hlt, hnext.le⟩
    have hin := ceil_position_lt hxs h1
    refine ⟨hlt, hnext, hceil, ?_⟩
    rw [quantile_eq, min_eq_left (by omega)]

theorem smallest_floor_le_quantile (hxs : xs ≠ []) (h0 : 0 ≤ q) (h1 : q ≤ 1) :
    smallest xs ⌊position xs q⌋₊ ≤ quantile xs q := by
  rcases quantile_cases hxs h0 h1 with ⟨-, h⟩ | ⟨hlt, -, hceil, h⟩
  · exact h.ge
  · have hin := ceil_position_lt hxs h1
    have hstep : smallest xs ⌊position xs q⌋₊ ≤ smallest xs (⌊position xs q⌋₊ + 1) :=
      smallest_mono (Nat.le_succ _) (by omega)
    rw [h]
    exact le_add_of_nonneg_right (mul_nonneg (sub_nonneg.mpr hstep) (sub_nonneg.mpr hlt.le))

theorem quantile_le_smallest_ceil (hxs : xs ≠ []) (h0 : 0 ≤ q) (h1 : q ≤ 1) :
    quantile xs q ≤ smallest xs ⌈position xs q⌉₊ := by
  rcases quantile_cases hxs h0 h1 with ⟨hint, h⟩ | ⟨-, hnext, hceil, h⟩
  · rw [h, hint, Nat.ceil_natCast, ← hint]
  · have hin := ceil_position_lt hxs h1
    have hstep : smallest xs ⌊position xs q⌋₊ ≤ smallest xs (⌊position xs q⌋₊ + 1) :=
      smallest_mono (Nat.le_succ _) (by omega)
    rw [h, hceil]
    nlinarith

theorem quantile_mono (hxs : xs ≠ []) (h0 : 0 ≤ q) (hqr : q ≤ r) (h1 : r ≤ 1) :
    quantile xs q ≤ quantile xs r := by
  have hpos : position xs q ≤ position xs r := position_mono hqr
  have hfloor := Nat.floor_mono hpos
  have hin := ceil_position_lt hxs h1
  rcases hfloor.eq_or_lt with heq | hlt
  · rw [quantile_eq, quantile_eq, ← heq]
    have hstep : smallest xs ⌊position xs q⌋₊ ≤
        smallest xs (min (⌊position xs q⌋₊ + 1) (xs.length - 1)) := by
      apply smallest_mono
      · have := Nat.floor_le_ceil (position xs r)
        omega
      · omega
    gcongr
  · calc quantile xs q ≤ smallest xs ⌈position xs q⌉₊ :=
          quantile_le_smallest_ceil hxs h0 (hqr.trans h1)
      _ ≤ smallest xs ⌊position xs r⌋₊ := by
          apply smallest_mono
          · exact (Nat.ceil_le_floor_add_one _).trans hlt
          · have := Nat.floor_le_ceil (position xs r)
            omega
      _ ≤ quantile xs r := smallest_floor_le_quantile hxs (h0.trans hqr) h1

theorem smallest_lt_quantile_iff (hxs : xs.Nodup) (h0 : 0 ≤ q) (h1 : q ≤ 1)
    (hk : k < xs.length) : smallest xs k < quantile xs q ↔ (k : K) < position xs q := by
  have hne : xs ≠ [] := List.ne_nil_of_length_pos (by omega)
  have hin := ceil_position_lt hne h1
  have hceil := Nat.floor_le_ceil (position xs q)
  constructor
  · intro hlt
    by_contra hge
    have hle : ⌈position xs q⌉₊ ≤ k := Nat.ceil_le.mpr (not_lt.mp hge)
    exact (hlt.trans_le (quantile_le_smallest_ceil hne h0 h1)).not_ge (smallest_mono hle hk)
  · intro hlt
    rcases (Nat.le_floor hlt.le).lt_or_eq with hbelow | rfl
    · exact (smallest_strictMono hxs hbelow (by omega)).trans_le
        (smallest_floor_le_quantile hne h0 h1)
    · rcases quantile_cases hne h0 h1 with ⟨hint, -⟩ | ⟨-, -, hnext, h⟩
      · exact absurd hint hlt.ne'
      · have hstep := smallest_strictMono hxs (Nat.lt_succ_self ⌊position xs q⌋₊) (by omega)
        rw [h]
        exact lt_add_of_pos_right _ (mul_pos (sub_pos.mpr hstep) (sub_pos.mpr hlt))

/-- Of distinct entries, a quantile has as many below it as its position says. -/
theorem countP_lt_quantile (hxs : xs.Nodup) (hne : xs ≠ []) (h0 : 0 ≤ q) (h1 : q ≤ 1) :
    xs.countP (fun x => decide (x < quantile xs q)) = ⌈position xs q⌉₊ := by
  have hin := ceil_position_lt hne h1
  have hcount := List.countP_le_length (p := fun x => decide (x < quantile xs q)) (l := xs)
  have hrank (k : ℕ) (hk : k < xs.length) :
      k < xs.countP (fun x => decide (x < quantile xs q)) ↔ k < ⌈position xs q⌉₊ := by
    rw [← smallest_lt_iff hk, smallest_lt_quantile_iff hxs h0 h1 hk, Nat.lt_ceil]
  by_contra hdiff
  rcases Nat.lt_or_gt_of_ne hdiff with hlt | hgt
  · exact lt_irrefl _ ((hrank _ (by omega)).mpr hlt)
  · exact lt_irrefl _ ((hrank _ hin).mp hgt)

theorem quantile_map_mul {g : K} (hg : 0 ≤ g) (xs : List K) (q : K) :
    quantile (xs.map fun x => g * x) q = g * quantile xs q := by
  simp only [quantile_eq, position, List.length_map, smallest_map_mul hg]
  ring

end Quantile
end Numerics
