import BeatmapBackend.Effects.Program

/-! Protocols: an automaton over the operations of a program. A program that follows a
protocol can be replaced, in an argument about interleavings, by the protocol's state. -/
namespace Effects

structure Protocol (E : Type) (R : E → Type) (X σ : Type) where
  allow : σ → E → Prop
  next : σ → (e : E) → Reply (R e) X → σ

variable {E : Type} {R : E → Type} {X α β σ : Type}

/-- Every operation is allowed where it is performed, whatever happened to the operations
before, and the program ends in a state that satisfies `post`. -/
def Follows (p : Protocol E R X σ) (post : σ → Except X α → Prop) : σ → Program E R X α → Prop
  | st, .ret r => post st r
  | st, .op e k => p.allow st e ∧ ∀ r, Follows p post (p.next st e r) (k r.seen)

namespace Follows

variable {p : Protocol E R X σ} {post : σ → Except X α → Prop} {st : σ}

@[simp] theorem ret_iff {r : Except X α} : Follows p post st (.ret r) ↔ post st r := Iff.rfl

theorem op_iff {e : E} {k : Except X (R e) → Program E R X α} : Follows p post st (.op e k) ↔
    p.allow st e ∧ ∀ r, Follows p post (p.next st e r) (k r.seen) := Iff.rfl

theorem recover {mid : σ → Except X α → Prop} {q : Program E R X α} {f : X → Program E R X α}
    (h : Follows p mid st q) (hok : ∀ st a, mid st (.ok a) → post st (.ok a))
    (herror : ∀ st x, mid st (.error x) → Follows p post st (f x)) :
    Follows p post st (q.recover f) := by
  induction q generalizing st with
  | ret r =>
    cases r with
    | ok a => exact hok st a h
    | error x => exact herror st x h
  | op e k ih => exact ⟨h.1, fun r => ih r.seen (h.2 r)⟩

theorem lift_bind {r : Except X β} {f : β → Program E R X α}
    (hok : ∀ b, r = .ok b → Follows p post st (f b)) (herror : ∀ x, post st (.error x)) :
    Follows p post st (Program.lift r >>= f) := by
  cases r with
  | ok b => exact hok b rfl
  | error x => exact herror x

/-- The rule for `perform e >>= f`, one case per outcome. -/
theorem perform_bind {e : E} {f : R e → Program E R X α} (ha : p.allow st e)
    (hdone : ∀ a, Follows p post (p.next st e (.done a)) (f a))
    (hraised : ∀ x, post (p.next st e (.raised x)) (.error x))
    (hlost : ∀ a x, post (p.next st e (.lost a x)) (.error x)) :
    Follows p post st (Program.perform e >>= f) := by
  refine ⟨ha, fun r => ?_⟩
  cases r with
  | done a => exact hdone a
  | raised x => exact hraised x
  | lost a x => exact hlost a x

/-- An operation the protocol does not look at. -/
theorem silent_bind {e : E} {f : R e → Program E R X α} (ha : p.allow st e)
    (hnext : ∀ r, p.next st e r = st) (hok : ∀ a, Follows p post st (f a))
    (herror : ∀ x, post st (.error x)) : Follows p post st (Program.perform e >>= f) :=
  perform_bind ha (fun a => (hnext (.done a)).symm ▸ hok a)
    (fun x => (hnext (.raised x)).symm ▸ herror x)
    fun a x => (hnext (.lost a x)).symm ▸ herror x

end Follows

attribute [irreducible] Follows

end Effects
