import BeatmapBackend.Effects.Program

/-! Where the exceptions of a program come from. A program is accountable for `blamed` when it
raises only what an operation raised to it or what is blamed anyway, as long as the operations
answer as assumed. -/
namespace Effects

variable {E : Type} {R : E → Type} {X α β : Type}

/-- `allow` is what the program may perform, `assume` what it may be answered. -/
def Accounts (allow : E → Prop) (assume : (e : E) → R e → Prop) (blamed : X → Prop) :
    Program E R X α → Prop
  | .ret (.ok _) => True
  | .ret (.error x) => blamed x
  | .op e k => allow e ∧ (∀ a, assume e a → Accounts allow assume blamed (k (.ok a))) ∧
      ∀ x, blamed x → Accounts allow assume blamed (k (.error x))

namespace Accounts

variable {allow : E → Prop} {assume : (e : E) → R e → Prop} {blamed : X → Prop}
  {p : Program E R X α}

theorem of_ok {a : α} :
    Accounts allow assume blamed (.ret (.ok a) : Program E R X α) := trivial

theorem error_iff {x : X} :
    Accounts allow assume blamed (.ret (.error x) : Program E R X α) ↔ blamed x := Iff.rfl

theorem op_iff {e : E} {k : Except X (R e) → Program E R X α} :
    Accounts allow assume blamed (.op e k) ↔
      allow e ∧ (∀ a, assume e a → Accounts allow assume blamed (k (.ok a))) ∧
        ∀ x, blamed x → Accounts allow assume blamed (k (.error x)) := Iff.rfl

/-- One operation was answered. -/
theorem reply {e : E} {k : Except X (R e) → Program E R X α} {r : Reply (R e) X}
    (h : Accounts allow assume blamed (.op e k)) (hok : ∀ a, r = .done a → assume e a)
    (herror : ∀ x, r.seen = .error x → blamed x) : Accounts allow assume blamed (k r.seen) := by
  obtain ⟨-, hdone, hraised⟩ := op_iff.mp h
  cases r with
  | done a => exact hdone a (hok a rfl)
  | raised x => exact hraised x (herror x rfl)
  | lost a x => exact hraised x (herror x rfl)

theorem recover {f : X → Program E R X α} (h : Accounts allow assume blamed p)
    (hf : ∀ x, blamed x → Accounts allow assume blamed (f x)) :
    Accounts allow assume blamed (p.recover f) := by
  induction p with
  | ret r =>
    cases r with
    | ok a => exact of_ok
    | error x => exact hf x h
  | op e k ih =>
    obtain ⟨hallow, hdone, hraised⟩ := op_iff.mp h
    exact ⟨hallow, fun a ha => ih _ (hdone a ha), fun x hx => ih _ (hraised x hx)⟩

theorem lift_bind {r : Except X β} {f : β → Program E R X α}
    (hok : ∀ b, r = .ok b → Accounts allow assume blamed (f b))
    (herror : ∀ x, r = .error x → blamed x) :
    Accounts allow assume blamed (Program.lift r >>= f) := by
  cases r with
  | ok b => exact hok b rfl
  | error x => exact herror x rfl

theorem perform_bind {e : E} {f : R e → Program E R X α} (hallow : allow e)
    (hdone : ∀ a, assume e a → Accounts allow assume blamed (f a)) :
    Accounts allow assume blamed (Program.perform e >>= f) :=
  ⟨hallow, hdone, fun _ hx => hx⟩

end Accounts

attribute [irreducible] Accounts

end Effects
