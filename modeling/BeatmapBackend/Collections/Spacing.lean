import Mathlib.Data.Int.CardIntervalMod
import Mathlib.Data.List.Basic
import Mathlib.Data.List.Induction
import Mathlib.Tactic.Common

/-! Entries that keep a distance. A greedy pass keeps an item unless it conflicts with one that is
kept, and times that are dealt out in turn are as far apart as the turns between them. -/
namespace Collections

section Greedy

variable {α : Type} (conflict : α → α → Prop) [DecidableRel conflict] {xs : List α}

def keep (kept : List α) (x : α) : List α :=
  if ∀ y ∈ kept, ¬ conflict y x then kept ++ [x] else kept

def greedy (xs : List α) : List α := xs.foldl (keep conflict) []

@[simp] theorem greedy_concat (xs : List α) (x : α) :
    greedy conflict (xs ++ [x]) = keep conflict (greedy conflict xs) x := by
  simp [greedy]

theorem subset_keep (kept : List α) (x : α) : kept ⊆ keep conflict kept x := by
  unfold keep
  split_ifs
  · exact List.subset_append_left kept [x]
  · exact List.Subset.refl kept

theorem greedy_sublist (xs : List α) : (greedy conflict xs).Sublist xs := by
  induction xs using List.reverseRecOn with
  | nil => exact List.Sublist.refl []
  | append_singleton xs x ih =>
    rw [greedy_concat]
    unfold keep
    split_ifs
    · exact ih.append (List.Sublist.refl [x])
    · exact ih.trans (List.sublist_append_left xs [x])

theorem greedy_pairwise (xs : List α) :
    (greedy conflict xs).Pairwise fun y x => ¬ conflict y x := by
  induction xs using List.reverseRecOn with
  | nil => exact List.Pairwise.nil
  | append_singleton xs x ih =>
    rw [greedy_concat]
    unfold keep
    split_ifs with hfree
    · apply List.pairwise_append.mpr
      refine ⟨ih, List.pairwise_singleton _ x, ?_⟩
      intro y hy z hz
      rw [List.mem_singleton.mp hz]
      exact hfree y hy
    · exact ih

/-- In a list ordered by `r` an item is kept, or a kept one before it stands in its way. -/
theorem mem_greedy_or {r : α → α → Prop} (h : xs.Pairwise r) :
    ∀ x ∈ xs, x ∈ greedy conflict xs ∨ ∃ y ∈ greedy conflict xs, conflict y x ∧ r y x := by
  induction xs using List.reverseRecOn with
  | nil => simp
  | append_singleton xs x ih =>
    obtain ⟨hxs, -, hlast⟩ := List.pairwise_append.mp h
    rw [greedy_concat]
    have hgrow := subset_keep conflict (greedy conflict xs) x
    intro z hz
    rcases List.mem_append.mp hz with hz | hz
    · rcases ih hxs z hz with hkept | ⟨y, hy, hyz⟩
      · exact .inl (hgrow hkept)
      · exact .inr ⟨y, hgrow hy, hyz⟩
    · obtain rfl := List.mem_singleton.mp hz
      by_cases hfree : ∀ y ∈ greedy conflict xs, ¬ conflict y z
      · left
        rw [keep, if_pos hfree]
        exact List.mem_append_right _ hz
      · right
        push Not at hfree
        obtain ⟨y, hy, hyz⟩ := hfree
        exact ⟨y, hgrow hy, hyz, hlast y ((greedy_sublist conflict xs).subset hy) z hz⟩

end Greedy

/-- Entries that are `gap` apart are as many gaps apart as there are steps between them. -/
theorem add_mul_le_of_pairwise {times : List ℤ} {gap : ℤ}
    (h : times.Pairwise fun s t => s + gap ≤ t) {i j : ℕ} (hij : i < j) (hj : j < times.length) :
    times[i] + gap * (j - i) ≤ times[j] := by
  induction j, hij using Nat.le_induction with
  | base =>
    have hstep := List.pairwise_iff_getElem.mp h i (i + 1) (by omega) hj (by omega)
    push_cast
    linarith
  | succ j hle ih =>
    have hstep := List.pairwise_iff_getElem.mp h j (j + 1) (by omega) hj (by omega)
    have hsofar := ih (by omega)
    push_cast
    linarith

/-- Two of the numbers below `n` that leave the same remainder are a multiple apart. -/
theorem add_le_of_mod_eq {m i j : ℕ} (hij : i < j) (h : i % m = j % m) : i + m ≤ j := by
  have hdvd : m ∣ j - i := (Nat.modEq_iff_dvd' hij.le).mp h
  have hle := Nat.le_of_dvd (by omega) hdvd
  omega

/-- Remainders are used evenly. -/
theorem count_mod_le {m : ℕ} (hm : 0 < m) (n : ℕ) {a b : ℕ} (ha : a < m) (hb : b < m) :
    (List.range n).countP (fun i => i % m = a) ≤
      (List.range n).countP (fun i => i % m = b) + 1 := by
  have hcount (c : ℕ) (hc : c < m) : (List.range n).countP (fun i => i % m = c) =
      n / m + if c % m < n % m then 1 else 0 := by
    rw [← Nat.count_modEq_card n hm c, Nat.count]
    refine List.countP_congr fun i _ => ?_
    rw [decide_eq_true_eq, decide_eq_true_eq, Nat.ModEq, Nat.mod_eq_of_lt hc]
  rw [hcount a ha, hcount b hb]
  split_ifs <;> omega

end Collections
