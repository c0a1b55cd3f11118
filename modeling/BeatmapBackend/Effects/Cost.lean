import BeatmapBackend.Effects.Program
import Mathlib.Data.Nat.Notation

/-! What a program may spend. Every operation has a price, and a budget covers a program
when no execution spends more, whatever happens to its operations. -/
namespace Effects

variable {E : Type} {R : E → Type} {X α β : Type}

def Covers (price : E → ℕ) : ℕ → Program E R X α → Prop
  | _, .ret _ => True
  | n, .op e k => price e ≤ n ∧ ∀ r, Covers price (n - price e) (k r)

namespace Covers

variable {price : E → ℕ} {n m : ℕ}

@[simp] theorem ret (r : Except X α) : Covers price n (.ret r : Program E R X α) := trivial

theorem mono {p : Program E R X α} (h : Covers price n p) (hnm : n ≤ m) :
    Covers price m p := by
  induction p generalizing n m with
  | ret r => trivial
  | op e k ih => exact ⟨Nat.le_trans h.1 hnm, fun r => ih r (h.2 r) (Nat.sub_le_sub_right hnm _)⟩

/-- One operation is paid for, and the rest of the budget covers the rest. -/
theorem op {e : E} {k : Except X (R e) → Program E R X α} (h : Covers price n (.op e k))
    (r : Except X (R e)) : ∃ m, m + price e = n ∧ Covers price m (k r) :=
  ⟨n - price e, Nat.sub_add_cancel h.1, h.2 r⟩

/-- An `except` clause may be entered after the whole body was paid for. -/
theorem recover {p : Program E R X α} {f : X → Program E R X α} (h : Covers price n p)
    (hf : ∀ x, Covers price m (f x)) : Covers price (n + m) (p.recover f) := by
  induction p generalizing n with
  | ret r =>
    cases r with
    | ok a => trivial
    | error x => exact (hf x).mono (Nat.le_add_left m n)
  | op e k ih =>
    refine ⟨Nat.le_trans h.1 (Nat.le_add_right n m), fun r => ?_⟩
    rw [Nat.sub_add_comm h.1]
    exact ih r (h.2 r)

theorem lift_bind {r : Except X β} {f : β → Program E R X α}
    (h : ∀ b, r = .ok b → Covers price n (f b)) : Covers price n (Program.lift r >>= f) := by
  cases r with
  | ok b => exact h b rfl
  | error x => trivial

theorem perform_bind {e : E} {f : R e → Program E R X α} (h : ∀ a, Covers price n (f a)) :
    Covers price (n + price e) (Program.perform e >>= f) := by
  refine ⟨Nat.le_add_left _ n, fun r => ?_⟩
  rw [Nat.add_sub_cancel]
  cases r with
  | ok a => exact h a
  | error x => trivial

/-- An operation of unit price. -/
theorem tick {e : E} {f : R e → Program E R X α} (he : price e = 1)
    (h : ∀ a, Covers price n (f a)) : Covers price (n + 1) (Program.perform e >>= f) :=
  he ▸ perform_bind h

end Covers

attribute [irreducible] Covers

end Effects
