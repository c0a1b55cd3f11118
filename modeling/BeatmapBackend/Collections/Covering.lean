import Mathlib.Data.List.Basic
import Mathlib.Data.List.Nodup
import Mathlib.Tactic.Common

/-! Counting by covers. Elements of which no two have a cover in common need a cover each. A
matching that no edge can be added to is therefore at least half as large as any other. -/
namespace Collections

variable {α β γ : Type}

theorem length_le_of_covers {covers : γ → α → Prop} {xs : List α} {cs : List γ}
    (happart : xs.Pairwise fun x y => ∀ c, covers c x → ¬ covers c y)
    (hcover : ∀ x ∈ xs, ∃ c ∈ cs, covers c x) : xs.length ≤ cs.length := by
  classical
  induction xs generalizing cs with
  | nil => exact Nat.zero_le _
  | cons x xs ih =>
    obtain ⟨hx, hrest⟩ := List.pairwise_cons.mp happart
    obtain ⟨c, hc, hcx⟩ := hcover x List.mem_cons_self
    have hle : xs.length ≤ (cs.erase c).length := by
      refine ih hrest fun y hy => ?_
      obtain ⟨d, hd, hdy⟩ := hcover y (List.mem_cons_of_mem x hy)
      have hne : d ≠ c := fun hdc => hx y hy c hcx (hdc ▸ hdy)
      exact ⟨d, (List.mem_erase_of_ne hne).mpr hd, hdy⟩
    have hlen := List.length_erase_of_mem hc
    have hpos := List.length_pos_of_mem hc
    rw [List.length_cons]
    omega

/-- No two pairs share a side. -/
structure IsMatching (pairs : List (α × β)) : Prop where
  left : (pairs.map Prod.fst).Nodup
  right : (pairs.map Prod.snd).Nodup

namespace IsMatching

variable {m pairs : List (α × β)}

theorem pairwise_left (h : IsMatching pairs) : pairs.Pairwise fun p q => p.1 ≠ q.1 :=
  List.pairwise_map.mp h.left

theorem pairwise_right (h : IsMatching pairs) : pairs.Pairwise fun p q => p.2 ≠ q.2 :=
  List.pairwise_map.mp h.right

/-- Every pair of the one matching shares a side with a pair of the other. -/
theorem length_le_two_mul (h : IsMatching pairs)
    (hmeets : ∀ p ∈ pairs, ∃ q ∈ m, q.1 = p.1 ∨ q.2 = p.2) : pairs.length ≤ 2 * m.length := by
  let covers : α ⊕ β → α × β → Prop := Sum.elim (fun a p => a = p.1) fun b p => b = p.2
  have happart : pairs.Pairwise fun p q => ∀ c, covers c p → ¬ covers c q := by
    refine (h.pairwise_left.and h.pairwise_right).imp fun ⟨hleft, hright⟩ c hp hq => ?_
    cases c with
    | inl a => exact hleft ((show a = _ from hp).symm.trans hq)
    | inr b => exact hright ((show b = _ from hp).symm.trans hq)
  have hle : pairs.length ≤ (m.map (fun q => (.inl q.1 : α ⊕ β)) ++
      m.map fun q => (.inr q.2 : α ⊕ β)).length := by
    refine length_le_of_covers happart fun p hp => ?_
    obtain ⟨q, hq, hsame⟩ := hmeets p hp
    rcases hsame with hleft | hright
    · exact ⟨.inl q.1, List.mem_append_left _ (List.mem_map_of_mem hq), hleft⟩
    · exact ⟨.inr q.2, List.mem_append_right _ (List.mem_map_of_mem hq), hright⟩
  rw [List.length_append, List.length_map, List.length_map] at hle
  omega

/-- Every pair of the one matching shares its left side with a pair of the other. -/
theorem length_le_of_left (h : IsMatching pairs) (hmeets : ∀ p ∈ pairs, ∃ q ∈ m, q.1 = p.1) :
    pairs.length ≤ m.length := by
  have happart : pairs.Pairwise fun p q : α × β => ∀ c : α × β, c.1 = p.1 → ¬ c.1 = q.1 :=
    h.pairwise_left.imp fun hne c hp hq => hne (hp.symm.trans hq)
  exact length_le_of_covers happart hmeets

end IsMatching
end Collections
